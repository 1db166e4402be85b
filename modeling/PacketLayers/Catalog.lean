import PacketLayers.Protocol.Arp
import PacketLayers.Protocol.Icmp
import PacketLayers.Protocol.Udp
import PacketLayers.Protocol.Sample

namespace PacketLayers.Catalog

def formats : List Format := [
  Ethernet.format, Arp.format, Ipv4.format, Ipv6.format, Icmp.format, Udp.format,
  Sample.Outer.format, Sample.Inner.format, Sample.Span.format]

def encapsulations : List Encapsulation := [
  Arp.overEthernet, Ipv4.overEthernet, Ipv6.overEthernet, Icmp.overIpv4, Udp.overIpv4,
  Udp.overIpv6, Sample.Inner.inOuter, Sample.Inner.inSpan, Sample.Span.inSpan]

def format? (name : String) : Option Format := formats.find? (·.name == name)

def encapsulation? (parent child : String) : Option Encapsulation :=
  encapsulations.find? fun e => e.parent.name == parent && e.child.name == child

end PacketLayers.Catalog
