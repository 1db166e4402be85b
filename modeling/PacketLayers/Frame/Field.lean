import PacketLayers.Bytes

namespace PacketLayers

structure Field where
  offset : Nat
  width : Nat
deriving DecidableEq, Repr

namespace Field

def octets (f : Field) (header : Bytes) : Bytes := header.slice f.offset f.width

def value (f : Field) (header : Bytes) : Nat := Bytes.ofBig (f.octets header)

def encode (f : Field) (n : Nat) : Bytes := Bytes.toBig f.width n

def write (f : Field) (data header : Bytes) : Bytes := header.overwrite f.offset data

def set (f : Field) (n : Nat) (header : Bytes) : Bytes := f.write (f.encode n) header

/-- What a named reading of a header shows. -/
inductive Reading where
  | number (n : Nat)
  | flag (b : Bool)
  | octets (bs : Bytes)
  | dotted (bs : Bytes)
deriving DecidableEq, Repr

end Field

def dottedDecimal (bs : Bytes) : String := ".".intercalate (bs.map fun b => toString b.toNat)

end PacketLayers
