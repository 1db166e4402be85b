namespace PacketLayers

abbrev Bytes := List UInt8

namespace Bytes

/-- At most `size` octets from `start` on. -/
def slice (bs : Bytes) (start size : Nat) : Bytes := (bs.drop start).take size

/-- The same octets with `data` written over those from `start` on. -/
def overwrite (bs : Bytes) (start : Nat) (data : Bytes) : Bytes :=
  bs.take start ++ (data ++ bs.drop (start + data.length))

def ofLittle : Bytes → Nat
  | [] => 0
  | b :: rest => b.toNat + 256 * ofLittle rest

def ofBig (bs : Bytes) : Nat := ofLittle bs.reverse

def toLittle : Nat → Nat → Bytes
  | 0, _ => []
  | width + 1, n => UInt8.ofNat (n % 256) :: toLittle width (n / 256)

def toBig (width n : Nat) : Bytes := (toLittle width n).reverse

def span : Nat → Nat
  | 0 => 1
  | width + 1 => 256 * span width

/-- An octet of the string, zero past its end. -/
def octet (bs : Bytes) (i : Nat) : Nat := (bs.getD i 0).toNat

theorem length_overwrite {bs data : Bytes} {start : Nat} (fits : start + data.length ≤ bs.length) :
    (bs.overwrite start data).length = bs.length := by
  simp only [overwrite, List.length_append, List.length_take, List.length_drop]
  omega

theorem length_slice {bs : Bytes} {start size : Nat} (inside : start + size ≤ bs.length) :
    (bs.slice start size).length = size := by
  simp only [slice, List.length_take, List.length_drop]
  omega

@[simp] theorem length_toLittle (width n : Nat) : (toLittle width n).length = width := by
  induction width generalizing n with
  | zero => rfl
  | succ width ih => simp [toLittle, ih]

@[simp] theorem length_toBig (width n : Nat) : (toBig width n).length = width := by
  simp [toBig]

theorem ofLittle_toLittle (width n : Nat) : ofLittle (toLittle width n) = n % span width := by
  induction width generalizing n with
  | zero => simp [toLittle, ofLittle, span, Nat.mod_one]
  | succ width ih =>
    simp only [toLittle, ofLittle, ih, UInt8.toNat_ofNat', Nat.reducePow]
    rw [Nat.mod_mod, span, Nat.mod_mul]

theorem ofBig_toBig (width n : Nat) : ofBig (toBig width n) = n % span width := by
  simp [ofBig, toBig, ofLittle_toLittle]

end Bytes

inductive ByteOrder where
  | little
  | big
deriving DecidableEq, Repr

namespace ByteOrder

def value : ByteOrder → Bytes → Nat
  | little => Bytes.ofLittle
  | big => Bytes.ofBig

def octets : ByteOrder → Nat → Nat → Bytes
  | little => Bytes.toLittle
  | big => Bytes.toBig

end ByteOrder

/-- The integer whose 32-bit two's complement pattern is `n`. -/
def signed32 (n : Nat) : Int :=
  if n < 0x80000000 then (n : Int) else (n : Int) - 0x100000000

end PacketLayers
