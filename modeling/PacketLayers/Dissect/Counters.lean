import PacketLayers.Decode.Run
import PacketLayers.Protocol.Ethernet
import PacketLayers.Report.Basic

namespace PacketLayers

inductive Layer where
  | ethernet
  | arp
  | ipv4
  | ipv6
  | icmp
  | udp
deriving DecidableEq, Repr

namespace Layer

def all : List Layer := [ethernet, arp, ipv4, ipv6, icmp, udp]

def name : Layer → String
  | ethernet => "ethernet"
  | arp => "arp"
  | ipv4 => "ipv4"
  | ipv6 => "ipv6"
  | icmp => "icmp"
  | udp => "udp"

end Layer

inductive Tally where
  | layer (l : Layer)
  | ethertype
deriving DecidableEq, Repr

/-- Frames for each layer and ethertype. The counts are those of 64 bits that wrap around: they are
reduced where they are read, in the summaries. -/
structure Counters where
  ethernet : Nat := 0
  arp : Nat := 0
  ipv4 : Nat := 0
  ipv6 : Nat := 0
  icmp : Nat := 0
  udp : Nat := 0
  /-- Ethertypes that occurred, ascending, each with its count. -/
  ethertypes : List (Nat × Nat) := []
deriving DecidableEq, Repr

namespace Counters

def frames (c : Counters) : Layer → Nat
  | .ethernet => c.ethernet
  | .arp => c.arp
  | .ipv4 => c.ipv4
  | .ipv6 => c.ipv6
  | .icmp => c.icmp
  | .udp => c.udp

def countLayer (c : Counters) : Layer → Counters
  | .ethernet => { c with ethernet := c.ethernet + 1 }
  | .arp => { c with arp := c.arp + 1 }
  | .ipv4 => { c with ipv4 := c.ipv4 + 1 }
  | .ipv6 => { c with ipv6 := c.ipv6 + 1 }
  | .icmp => { c with icmp := c.icmp + 1 }
  | .udp => { c with udp := c.udp + 1 }

/-- One more of a key in an ascending table. -/
def bump (key : Nat) : List (Nat × Nat) → List (Nat × Nat)
  | [] => [(key, 1)]
  | (k, n) :: rest =>
    if key < k then (key, 1) :: (k, n) :: rest
    else if key = k then (k, n + 1) :: rest
    else (k, n) :: bump key rest

def lookup (key : Nat) (table : List (Nat × Nat)) : Nat := (table.lookup key).getD 0

def record (c : Counters) (call : Call Tally) : Counters :=
  match call.label with
  | .layer l => c.countLayer l
  | .ethertype =>
    { c with ethertypes := bump (Ethernet.ethertype.value call.frame.header) c.ethertypes }

/-- The counts of all layers, zeros included, in 64 bits. -/
def layerSummaries (c : Counters) : List LayerSummary :=
  Layer.all.map fun l => ⟨l.name, UInt64.ofNat (c.frames l)⟩

def ethertypeSummaries (c : Counters) : List EthertypeSummary :=
  c.ethertypes.map fun (ethertype, frames) => ⟨UInt16.ofNat ethertype, UInt64.ofNat frames⟩

end Counters

end PacketLayers
