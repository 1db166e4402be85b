import PacketLayers.Capture.Packet
import PacketLayers.Dissect.Counters
import PacketLayers.Protocol.Arp
import PacketLayers.Protocol.Icmp
import PacketLayers.Protocol.Udp

/-!
The decode trees of a dissection, one for Ethernet and one for either version of raw IP, and the
choice among them by link type.
-/
namespace PacketLayers

namespace Subscribers

def counting (l : Layer) : Subscribers Tally := addCallback .done (.layer l)

def chainCounting (s : Subscribers Tally) (e : Encapsulation) (l : Layer) : Subscribers Tally :=
  s.chain e.child e.announces (counting l)

def belowIpv4 : Subscribers Tally :=
  ((counting .ipv4).chainCounting Icmp.overIpv4 .icmp).chainCounting Udp.overIpv4 .udp

def belowIpv6 : Subscribers Tally := (counting .ipv6).chainCounting Udp.overIpv6 .udp

def belowEthernet : Subscribers Tally :=
  ((((counting .ethernet).addCallback .ethertype).chainCounting Arp.overEthernet .arp).chain
    Ipv4.format Ipv4.overEthernet.announces belowIpv4).chain
    Ipv6.format Ipv6.overEthernet.announces belowIpv6

end Subscribers

namespace LinkType

def raw : Int := 101
def ipv4 : Int := 228
def ipv6 : Int := 229

def isIp (linkType : Int) : Bool := linkType == raw || linkType == ipv4 || linkType == ipv6

end LinkType

namespace Dissect

def ethernetTree : Stage Tally := ⟨Ethernet.format, Subscribers.belowEthernet⟩
def ipv4Tree : Stage Tally := ⟨Ipv4.format, Subscribers.belowIpv4⟩
def ipv6Tree : Stage Tally := ⟨Ipv6.format, Subscribers.belowIpv6⟩

def ipVersion? (data : Bytes) : Option Nat := data.head?.map fun b => b.toNat / 16

def rawIp (data : Bytes) : List (Step Tally) :=
  match ipVersion? data with
  | some 4 => (ipv4Tree.parse data).steps
  | some 6 => (ipv6Tree.parse data).steps
  | version => [.event (.neitherVersion version)]

/-- What happens to a packet in the tree for its link type, if there is one. -/
def packet? (linkType : Int) (data : Bytes) : Option (List (Step Tally)) :=
  if linkType = LinkType.ethernet then some (ethernetTree.parse data).steps
  else if LinkType.isIp linkType then some (rawIp data)
  else none

end Dissect

end PacketLayers
