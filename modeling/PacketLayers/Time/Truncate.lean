namespace PacketLayers

def limit128 : Nat := 0x80000000000000000000000000000000

/-- The integer nearest to `n` in 128 bits with a sign. -/
def saturate128 (n : Int) : Int := max (-(limit128 : Int)) (min n (limit128 - 1))

def significands : Nat := 0x10000000000000

def truncateBits (bits : Nat) : Int :=
  let negative := decide (0x8000000000000000 ≤ bits)
  let exponent := bits / significands % 2048
  let low := bits % significands
  let signed (n : Nat) : Int := if negative then -(n : Int) else n
  if exponent = 2047 then
    if low = 0 then saturate128 (signed limit128) else 0
  else
    let significand := if exponent = 0 then low else low + significands
    let power := max exponent 1
    let magnitude :=
      if 1075 ≤ power then significand <<< (power - 1075)
      else significand >>> (1075 - power)
    saturate128 (signed magnitude)

def truncate (x : Float) : Int := truncateBits x.toBits.toNat

end PacketLayers
