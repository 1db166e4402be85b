import PacketLayers.Frame.Basic

namespace PacketLayers.Ethernet

def destination : Field := ⟨0, 6⟩
def source : Field := ⟨6, 6⟩
def ethertype : Field := ⟨12, 2⟩

def format : Format where
  name := "ethernet"
  headerLength := 14
  valid _ _ := true
  readings h := [
    ("destination", .octets (destination.octets h)),
    ("source", .octets (source.octets h)),
    ("ethertype", .number (ethertype.value h))]
  settable := [("destination", destination), ("source", source), ("ethertype", ethertype)]

/-- A format that follows Ethernet under one ethertype. -/
def carries (child : Format) (type : Nat) : Encapsulation :=
  ⟨format, child, fun f => ethertype.value f.header == type⟩

end PacketLayers.Ethernet
