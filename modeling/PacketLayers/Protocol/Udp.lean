import PacketLayers.Protocol.Ipv4
import PacketLayers.Protocol.Ipv6

namespace PacketLayers.Udp

def sourcePort : Field := ⟨0, 2⟩
def destinationPort : Field := ⟨2, 2⟩
def length : Field := ⟨4, 2⟩
def datagramChecksum : Field := ⟨6, 2⟩

def format : Format where
  name := "udp"
  headerLength := 8
  valid h body := decide (8 ≤ length.value h) && decide (length.value h ≤ 8 + body.length)
  bounds h _ := ⟨8, length.value h⟩
  readings h := [
    ("source_port", .number (sourcePort.value h)),
    ("destination_port", .number (destinationPort.value h)),
    ("length", .number (length.value h)),
    ("checksum", .number (datagramChecksum.value h))]
  settable := [("source_port", sourcePort), ("destination_port", destinationPort)]

def overIpv4 : Encapsulation := Ipv4.carries format 17

def overIpv6 : Encapsulation := Ipv6.carries format 17

end PacketLayers.Udp
