import PacketLayers.Protocol.Ipv4

namespace PacketLayers.Icmp

def type : Field := ⟨0, 1⟩
def code : Field := ⟨1, 1⟩
def messageChecksum : Field := ⟨2, 2⟩

def isEchoRequest (h : Bytes) : Bool := type.value h == 8
def isEchoReply (h : Bytes) : Bool := type.value h == 0

def format : Format where
  name := "icmp"
  headerLength := 4
  valid h body := ((WordSum.add {} h).add body).finish == 0
  readings h := [
    ("type", .number (type.value h)),
    ("code", .number (code.value h)),
    ("checksum", .number (messageChecksum.value h)),
    ("is_echo_request", .flag (isEchoRequest h)),
    ("is_echo_reply", .flag (isEchoReply h))]

def overIpv4 : Encapsulation := Ipv4.carries format 1

end PacketLayers.Icmp
