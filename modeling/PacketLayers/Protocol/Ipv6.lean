import PacketLayers.Protocol.Ethernet

namespace PacketLayers.Ipv6

/-- Version, traffic class and flow label share one word. -/
def firstWord : Field := ⟨0, 4⟩
def payloadLength : Field := ⟨4, 2⟩
def nextHeader : Field := ⟨6, 1⟩
def hopLimit : Field := ⟨7, 1⟩
def source : Field := ⟨8, 16⟩
def destination : Field := ⟨24, 16⟩

def version (h : Bytes) : Nat := firstWord.value h / 0x10000000

def trafficClass (h : Bytes) : Nat := firstWord.value h / 0x100000 % 256

def flowLabel (h : Bytes) : Nat := firstWord.value h % 0x100000

def format : Format where
  name := "ipv6"
  headerLength := 40
  valid h body := version h == 6 && decide (payloadLength.value h ≤ body.length)
  bounds h _ := ⟨40, 40 + payloadLength.value h⟩
  readings h := [
    ("version", .number (version h)),
    ("traffic_class", .number (trafficClass h)),
    ("flow_label", .number (flowLabel h)),
    ("payload_length", .number (payloadLength.value h)),
    ("next_header", .number (nextHeader.value h)),
    ("hop_limit", .number (hopLimit.value h)),
    ("source", .octets (source.octets h)),
    ("destination", .octets (destination.octets h))]
  settable := [("hop_limit", hopLimit), ("source", source), ("destination", destination)]

def overEthernet : Encapsulation := Ethernet.carries format 0x86DD

/-- A format that follows the fixed IPv6 header at once. -/
def carries (child : Format) (number : Nat) : Encapsulation :=
  ⟨format, child, fun f => nextHeader.value f.header == number⟩

end PacketLayers.Ipv6
