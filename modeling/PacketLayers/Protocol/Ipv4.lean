import PacketLayers.Checksum
import PacketLayers.Frame.Draft
import PacketLayers.Protocol.Ethernet

namespace PacketLayers.Ipv4

def versionAndLength : Field := ⟨0, 1⟩
def service : Field := ⟨1, 1⟩
def totalLength : Field := ⟨2, 2⟩
def identification : Field := ⟨4, 2⟩
def fragment : Field := ⟨6, 2⟩
def ttl : Field := ⟨8, 1⟩
def protocol : Field := ⟨9, 1⟩
def headerChecksum : Field := ⟨10, 2⟩
def source : Field := ⟨12, 4⟩
def destination : Field := ⟨16, 4⟩

def version (h : Bytes) : Nat := versionAndLength.value h / 16

/-- The header length in words of four octets. -/
def headerWords (h : Bytes) : Nat := versionAndLength.value h % 16

def headerLength (h : Bytes) : Nat := 4 * headerWords h

def differentiatedServices (h : Bytes) : Nat := service.value h / 4

def congestion (h : Bytes) : Nat := service.value h % 4

def dontFragment (h : Bytes) : Bool := fragment.value h / 0x4000 % 2 == 1

def moreFragments (h : Bytes) : Bool := fragment.value h / 0x2000 % 2 == 1

def fragmentOffset (h : Bytes) : Nat := fragment.value h % 0x2000

def isFragment (h : Bytes) : Bool := moreFragments h || fragmentOffset h != 0

/-- The octets between the fixed header and the payload; none if the body is too short. -/
def options (header body : Bytes) : Bytes :=
  let size := headerLength header - 20
  if size ≤ body.length then body.take size else []

/-- Zero for a header that carries its own checksum. -/
def checksumOver (header body : Bytes) : Nat :=
  ((WordSum.add {} header).add (options header body)).finish

def format : Format where
  name := "ipv4"
  headerLength := 20
  valid h body :=
    let size := 20 + body.length
    version h == 4 && decide (5 ≤ headerWords h) && decide (headerLength h ≤ size) &&
      decide (headerLength h ≤ totalLength.value h) && decide (totalLength.value h ≤ size) &&
      checksumOver h body == 0
  bounds h _ := ⟨headerLength h, totalLength.value h⟩
  readings h := [
    ("version", .number (version h)),
    ("ihl", .number (headerWords h)),
    ("header_length", .number (headerLength h)),
    ("dscp", .number (differentiatedServices h)),
    ("ecn", .number (congestion h)),
    ("total_length", .number (totalLength.value h)),
    ("identification", .number (identification.value h)),
    ("dont_fragment", .flag (dontFragment h)),
    ("more_fragments", .flag (moreFragments h)),
    ("fragment_offset", .number (fragmentOffset h)),
    ("is_fragment", .flag (isFragment h)),
    ("ttl", .number (ttl.value h)),
    ("protocol", .number (protocol.value h)),
    ("checksum", .number (headerChecksum.value h)),
    ("source", .dotted (source.octets h)),
    ("destination", .dotted (destination.octets h))]
  settable := [("ttl", ttl), ("checksum", headerChecksum), ("source", source),
    ("destination", destination)]

def overEthernet : Encapsulation := Ethernet.carries format 0x0800

/-- A format that follows IPv4 under one protocol number. Fragments carry nothing whole. -/
def carries (child : Format) (number : Nat) : Encapsulation :=
  ⟨format, child, fun f => protocol.value f.header == number && !isFragment f.header⟩

/-- Stores the checksum that makes the header sum to zero. -/
def refreshChecksum (d : Draft) : Draft :=
  let cleared := d.set headerChecksum (headerChecksum.encode 0)
  cleared.set headerChecksum (headerChecksum.encode (checksumOver cleared.header cleared.body))

end PacketLayers.Ipv4
