import PacketLayers.Proofs.Dissect.Carried

/-!
Packets with octets appended. What a packet counts is counted with padding too, and once a packet is
told apart as ARP or IP, padding changes no count and nothing that is read from the IP layer down.
-/
namespace PacketLayers

/-! ### The rules on octets -/

namespace Arp

theorem Holds.append {p : Bytes} (packet : Holds p) (pad : Bytes) : Holds (p ++ pad) := by
  obtain ⟨fits, start⟩ := packet
  refine ⟨?_, ?_⟩
  · rw [List.length_append]
    omega
  · rw [List.take_append_of_le_length (by omega), start]

end Arp

namespace Ipv4

variable {p : Bytes} (packet : Holds p) (pad : Bytes)
include packet

theorem headerEnd_append : headerEnd (p ++ pad) = headerEnd p := by
  rw [headerEnd, Bytes.octet_append_of_lt (Nat.lt_of_lt_of_le (by decide) packet.1), headerEnd]

theorem word_append {i : Nat} (early : i + 1 < 20) : (p ++ pad).word i = p.word i :=
  Bytes.word_append_of_lt (Nat.lt_of_lt_of_le early packet.1) pad

theorem Holds.append : Holds (p ++ pad) := by
  have version := Bytes.octet_append_of_lt (i := 0) (Nat.lt_of_lt_of_le (by decide) packet.1) pad
  have ends := headerEnd_append packet pad
  have total := word_append packet pad (i := 2) (by decide)
  obtain ⟨fits, four, low, behind, inside, sum⟩ := packet
  refine ⟨?_, ?_, ?_, ?_, ?_, ?_⟩
  · rw [List.length_append]
    omega
  · rw [version, four]
  · rw [ends]
    exact low
  · rw [ends, total]
    exact behind
  · rw [total, List.length_append]
    omega
  · rw [ends, List.take_append_of_le_length (Nat.le_trans behind inside), sum]

theorem content_append : content (p ++ pad) = content p := by
  have ends := headerEnd_append packet pad
  have total := word_append packet pad (i := 2) (by decide)
  rw [content, content, ends, total, List.take_append_of_le_length packet.2.2.2.2.1]

end Ipv4

namespace Ipv6

variable {p : Bytes} (packet : Holds p) (pad : Bytes)
include packet

theorem word_append {i : Nat} (early : i + 1 < 40) : (p ++ pad).word i = p.word i :=
  Bytes.word_append_of_lt (Nat.lt_of_lt_of_le early packet.1) pad

theorem Holds.append : Holds (p ++ pad) := by
  have version := Bytes.octet_append_of_lt (i := 0) (Nat.lt_of_lt_of_le (by decide) packet.1) pad
  have length := word_append packet pad (i := 4) (by decide)
  obtain ⟨fits, six, inside⟩ := packet
  refine ⟨?_, ?_, ?_⟩
  · rw [List.length_append]
    omega
  · rw [version, six]
  · rw [length, List.length_append]
    omega

theorem content_append : content (p ++ pad) = content p := by
  have length := word_append packet pad (i := 4) (by decide)
  rw [content, content, length, List.take_append_of_le_length packet.2.2]

end Ipv6

namespace Dissect

theorem ipv4Layers_append {p : Bytes} (packet : Ipv4.Holds p) (pad : Bytes) :
    ipv4Layers (p ++ pad) = ipv4Layers p := by
  have protocol := Bytes.octet_append_of_lt (i := 9) (Nat.lt_of_lt_of_le (by decide) packet.1) pad
  have whole : Ipv4.Whole (p ++ pad) = Ipv4.Whole p := by
    rw [Ipv4.Whole, Ipv4.word_append packet pad (i := 6) (by decide), Ipv4.Whole]
  rw [ipv4Layers, ipv4Layers, if_pos packet, if_pos (Ipv4.Holds.append packet pad)]
  simp only [whole, protocol, Ipv4.content_append packet pad]

theorem ipv6Layers_append {p : Bytes} (packet : Ipv6.Holds p) (pad : Bytes) :
    ipv6Layers (p ++ pad) = ipv6Layers p := by
  have next := Bytes.octet_append_of_lt (i := 6) (Nat.lt_of_lt_of_le (by decide) packet.1) pad
  rw [ipv6Layers, ipv6Layers, if_pos packet, if_pos (Ipv6.Holds.append packet pad)]
  simp only [next, Ipv6.content_append packet pad]

theorem holds_of_ite {holds : Prop} [Decidable holds] {layers : List Layer}
    (some : (if holds then layers else []) ≠ []) : holds :=
  Decidable.byContradiction fun other => some (if_neg other)

theorem packet_of_carriedLayers {data : Bytes} (some : carriedLayers data ≠ []) :
    (data.word 12 = 0x0806 ∧ Arp.Holds (data.drop 14)) ∨
      (data.word 12 = 0x0800 ∧ Ipv4.Holds (data.drop 14)) ∨
      (data.word 12 = 0x86DD ∧ Ipv6.Holds (data.drop 14)) := by
  unfold carriedLayers ipv4Layers ipv6Layers at some
  split at some
  case isTrue arp => exact .inl ⟨arp, holds_of_ite some⟩
  case isFalse =>
    split at some
    case isTrue ipv4 => exact .inr (.inl ⟨ipv4, holds_of_ite some⟩)
    case isFalse =>
      split at some
      case isTrue ipv6 => exact .inr (.inr ⟨ipv6, holds_of_ite some⟩)
      case isFalse => contradiction

theorem packet_of_ipLayers {data : Bytes} (some : ipLayers data ≠ []) :
    (data.octet 0 / 16 = 4 ∧ Ipv4.Holds data) ∨ (data.octet 0 / 16 = 6 ∧ Ipv6.Holds data) := by
  unfold ipLayers ipv4Layers ipv6Layers at some
  split at some
  case isTrue four => exact .inl ⟨four, holds_of_ite some⟩
  case isFalse =>
    split at some
    case isTrue six => exact .inr ⟨six, holds_of_ite some⟩
    case isFalse => contradiction

theorem long_append {data : Bytes} (long : 14 ≤ data.length) (pad : Bytes) :
    14 ≤ (data ++ pad).length := by
  rw [List.length_append]
  omega

theorem word_drop_append {data : Bytes} (long : 14 ≤ data.length) (pad : Bytes) :
    (data ++ pad).word 12 = data.word 12 ∧ (data ++ pad).drop 14 = data.drop 14 ++ pad :=
  ⟨Bytes.word_append_of_lt (Nat.lt_of_lt_of_le (by decide) long) pad,
    List.drop_append_of_le_length long⟩

theorem carriedLayers_append {data : Bytes} (long : 14 ≤ data.length)
    (some : carriedLayers data ≠ []) (pad : Bytes) :
    carriedLayers (data ++ pad) = carriedLayers data := by
  obtain ⟨type, behind⟩ := word_drop_append long pad
  simp only [carriedLayers, type, behind]
  rcases packet_of_carriedLayers some with ⟨arp, packet⟩ | ⟨ipv4, packet⟩ | ⟨ipv6, packet⟩
  · simp only [arp, if_true, if_pos packet, if_pos (packet.append pad)]
  · simp only [ipv4, Nat.reduceEqDiff, if_false, if_true, ipv4Layers_append packet pad]
  · simp only [ipv6, Nat.reduceEqDiff, if_false, if_true, ipv6Layers_append packet pad]

theorem ipLayers_append {data : Bytes} (some : ipLayers data ≠ []) (pad : Bytes) :
    ipLayers (data ++ pad) = ipLayers data := by
  rcases packet_of_ipLayers some with ⟨four, packet⟩ | ⟨six, packet⟩
  · have version := Bytes.octet_append_of_lt (i := 0) (Nat.lt_of_lt_of_le (by decide) packet.1) pad
    simp only [ipLayers, version, four, if_true, ipv4Layers_append packet pad]
  · have version := Bytes.octet_append_of_lt (i := 0) (Nat.lt_of_lt_of_le (by decide) packet.1) pad
    simp only [ipLayers, version, six, Nat.reduceEqDiff, if_false, if_true,
      ipv6Layers_append packet pad]

end Dissect

/-! ### What callbacks are handed -/

theorem Stage.shown_parse {α : Type} {s : Stage α} (quiet : s.subscribers.Quiet) {p q : Bytes}
    (hp : Frame.Accepts s.format p) (hq : Frame.Accepts s.format q)
    (header : p.take s.format.headerLength = q.take s.format.headerLength)
    (payload : (Frame.split s.format p hp.1).payload = (Frame.split s.format q hq.1).payload)
    (told : s.subscribers.ToldAlike (Frame.split s.format p hp.1) (Frame.split s.format q hq.1)) :
    (s.parse p).calls.map Call.shown = (s.parse q).calls.map Call.shown := by
  rw [Stage.calls_parse quiet, Stage.calls_parse quiet, Frame.parse_of_accepts hp,
    Frame.parse_of_accepts hq]
  simp only [Option.toList_some, List.flatMap_singleton]
  exact Subscribers.shown_deliver (f := Frame.split s.format p hp.1)
    (g := Frame.split s.format q hq.1) rfl header payload told

namespace Dissect

theorem told_ipv4 {f g : Frame} (header : f.header = g.header) :
    Subscribers.belowIpv4.ToldAlike f g := by
  have icmp : Icmp.overIpv4.announces f = Icmp.overIpv4.announces g := by
    simp only [Icmp.overIpv4, Ipv4.carries, header]
  have udp : Udp.overIpv4.announces f = Udp.overIpv4.announces g := by
    simp only [Udp.overIpv4, Ipv4.carries, header]
  exact ⟨icmp, udp, trivial⟩

theorem told_ipv6 {f g : Frame} (header : f.header = g.header) :
    Subscribers.belowIpv6.ToldAlike f g := by
  have udp : Udp.overIpv6.announces f = Udp.overIpv6.announces g := by
    simp only [Udp.overIpv6, Ipv6.carries, header]
  exact ⟨udp, trivial⟩

theorem shown_ipv4 {p : Bytes} (packet : Ipv4.Holds p) (pad : Bytes) :
    (ipv4Tree.parse (p ++ pad)).calls.map Call.shown =
      (ipv4Tree.parse p).calls.map Call.shown := by
  have padded := Ipv4.Holds.append packet pad
  have header : (p ++ pad).take 20 = p.take 20 := List.take_append_of_le_length packet.1
  refine Stage.shown_parse Ipv4.quiet_below ((Ipv4.accepts_iff _).mpr padded)
    ((Ipv4.accepts_iff _).mpr packet) header ?_ (told_ipv4 header)
  exact (Ipv4.payload_eq padded _).trans
    ((Ipv4.content_append packet pad).trans (Ipv4.payload_eq packet _).symm)

theorem shown_ipv6 {p : Bytes} (packet : Ipv6.Holds p) (pad : Bytes) :
    (ipv6Tree.parse (p ++ pad)).calls.map Call.shown =
      (ipv6Tree.parse p).calls.map Call.shown := by
  have padded := Ipv6.Holds.append packet pad
  have header : (p ++ pad).take 40 = p.take 40 := List.take_append_of_le_length packet.1
  refine Stage.shown_parse Ipv6.quiet_below ((Ipv6.accepts_iff _).mpr padded)
    ((Ipv6.accepts_iff _).mpr packet) header ?_ (told_ipv6 header)
  exact (Ipv6.payload_eq padded _).trans
    ((Ipv6.content_append packet pad).trans (Ipv6.payload_eq packet _).symm)

/-- Whether a callback hears of the IP layer or of a layer below it. -/
def fromIp : Tally → Bool
  | .layer .ipv4 | .layer .ipv6 | .layer .icmp | .layer .udp => true
  | _ => false

def handedBy {β : Type} (run : Run Tally β) : List (Tally × Bytes × Bytes) :=
  (run.calls.map Call.shown).filter fun c => fromIp c.1

def handed (linkType : Int) (data : Bytes) : List (Tally × Bytes × Bytes) :=
  handedBy (Run.mk ((packet? linkType data).getD []) (.ok ()))

theorem handedBy_carried {parent : Format} {bs payload : Bytes}
    (fits : parent.headerLength ≤ bs.length)
    (carried : (Frame.split parent bs fits).payload = payload) (child : Format)
    {announces : (parent : Frame) → Bool} {announced : Prop} [Decidable announced]
    (header : announces (Frame.split parent bs fits) = true ↔ announced)
    {inner : Subscribers Tally} (quiet : inner.Quiet) (next : Subscribers Tally) :
    handedBy ((Subscribers.stage child announces inner next).deliver
        (Frame.split parent bs fits)) =
      (if announced then handedBy (Stage.parse ⟨child, inner⟩ payload) else []) ++
        handedBy (next.deliver (Frame.split parent bs fits)) := by
  rw [handedBy, Subscribers.calls_carried fits carried child header quiet, List.map_append,
    List.filter_append]
  congr 1
  split <;> rfl

theorem handedBy_arp (p : Bytes) :
    handedBy (Stage.parse ⟨Arp.format, Subscribers.counting .arp⟩ p) = [] := by
  rw [handedBy, Stage.calls_parse (quiet_counting .arp)]
  cases (Frame.parse Arp.format p).toOption <;> rfl

open Subscribers in
theorem handed_ethernet {data : Bytes} (long : 14 ≤ data.length) :
    handed 1 data =
      (if data.word 12 = 0x0800 then handedBy (ipv4Tree.parse (data.drop 14)) else []) ++
        if data.word 12 = 0x86DD then handedBy (ipv6Tree.parse (data.drop 14)) else [] := by
  have fits : Ethernet.format.headerLength ≤ data.length := long
  have carried := Ethernet.payload_eq fits
  have ipv6 := handedBy_carried fits carried Ipv6.format
    (Ethernet.announces_iff long Ipv6.format 0x86DD) Ipv6.quiet_below done
  have ipv4 := handedBy_carried fits carried Ipv4.format
    (Ethernet.announces_iff long Ipv4.format 0x0800) Ipv4.quiet_below
    (stage Ipv6.format Ipv6.overEthernet.announces belowIpv6 done)
  have arp := handedBy_carried fits carried Arp.format
    (Ethernet.announces_iff long Arp.format 0x0806) (quiet_counting .arp)
    (stage Ipv4.format Ipv4.overEthernet.announces belowIpv4
      (stage Ipv6.format Ipv6.overEthernet.announces belowIpv6 done))
  -- The two callbacks of the root hear of the Ethernet frame and are left out.
  have root : handed 1 data = handedBy (belowEthernet.deliver (Frame.split _ data fits)) := by
    have accepted := Frame.parse_of_accepts ((Ethernet.accepts_iff data).mpr long)
    have calls : (ethernetTree.parse data).calls = _ :=
      Stage.calls_parse Ethernet.quiet_below data
    rw [ethernetTree, accepted, Option.toList_some, List.flatMap_singleton] at calls
    exact congrArg (fun c => (c.map Call.shown).filter fun c => fromIp c.1) calls
  rw [handedBy_arp, ite_self, List.nil_append] at arp
  refine root.trans (arp.trans (ipv4.trans ?_))
  exact congrArg _ (ipv6.trans (List.append_nil _))

theorem handed_ipv4 {linkType : Int} (other : linkType ≠ 1) (ip : linkType ∈ supported)
    {data : Bytes} (four : data.octet 0 / 16 = 4) :
    handed linkType data = handedBy (ipv4Tree.parse data) := by
  have version := (ipVersion?_eq_some_iff (by decide)).mpr four
  rw [handed, packet?_ip other ip, rawIp, version]
  rfl

theorem handed_ipv6 {linkType : Int} (other : linkType ≠ 1) (ip : linkType ∈ supported)
    {data : Bytes} (six : data.octet 0 / 16 = 6) :
    handed linkType data = handedBy (ipv6Tree.parse data) := by
  have version := (ipVersion?_eq_some_iff (by decide)).mpr six
  rw [handed, packet?_ip other ip, rawIp, version]
  rfl

theorem handedBy_ipv4 {p : Bytes} (packet : Ipv4.Holds p) (pad : Bytes) :
    handedBy (ipv4Tree.parse (p ++ pad)) = handedBy (ipv4Tree.parse p) := by
  rw [handedBy, shown_ipv4 packet pad, handedBy]

theorem handedBy_ipv6 {p : Bytes} (packet : Ipv6.Holds p) (pad : Bytes) :
    handedBy (ipv6Tree.parse (p ++ pad)) = handedBy (ipv6Tree.parse p) := by
  rw [handedBy, shown_ipv6 packet pad, handedBy]

theorem handed_ethernet_append {data : Bytes} (long : 14 ≤ data.length)
    (some : carriedLayers data ≠ []) (pad : Bytes) :
    handed 1 (data ++ pad) = handed 1 data := by
  obtain ⟨type, behind⟩ := word_drop_append long pad
  rw [handed_ethernet long, handed_ethernet (long_append long pad), type, behind]
  rcases packet_of_carriedLayers some with ⟨arp, -⟩ | ⟨ipv4, packet⟩ | ⟨ipv6, packet⟩
  · simp only [arp, Nat.reduceEqDiff, if_false]
  · simp only [ipv4, Nat.reduceEqDiff, if_true, if_false, handedBy_ipv4 packet pad]
  · simp only [ipv6, Nat.reduceEqDiff, if_true, if_false, handedBy_ipv6 packet pad]

theorem handed_ip_append {linkType : Int} (other : linkType ≠ 1) (ip : linkType ∈ supported)
    {data : Bytes} (some : ipLayers data ≠ []) (pad : Bytes) :
    handed linkType (data ++ pad) = handed linkType data := by
  rcases packet_of_ipLayers some with ⟨four, packet⟩ | ⟨six, packet⟩
  · have four' := (Ipv4.Holds.append packet pad).2.1
    rw [handed_ipv4 other ip four, handed_ipv4 other ip four', handedBy_ipv4 packet pad]
  · have six' := (Ipv6.Holds.append packet pad).2.1
    rw [handed_ipv6 other ip six, handed_ipv6 other ip six', handedBy_ipv6 packet pad]

theorem mem_ethernetLayers {data : Bytes} {l : Layer} (counted : l ∈ ethernetLayers data) :
    14 ≤ data.length ∧ (l = .ethernet ∨ l ∈ carriedLayers data) := by
  unfold ethernetLayers at counted
  split at counted
  case isTrue long => exact ⟨long, List.mem_cons.mp counted⟩
  case isFalse => cases counted

theorem link_of_mem {linkType : Int} {data : Bytes} {l : Layer}
    (counted : l ∈ layersOf linkType data) :
    (linkType = 1 ∧ 14 ≤ data.length ∧ (l = .ethernet ∨ l ∈ carriedLayers data)) ∨
      (linkType ≠ 1 ∧ linkType ∈ supported ∧ l ∈ ipLayers data) := by
  unfold layersOf at counted
  split at counted
  case isTrue ethernet => exact .inl ⟨ethernet, mem_ethernetLayers counted⟩
  case isFalse other =>
    split at counted
    case isTrue ip => exact .inr ⟨other, ip, counted⟩
    case isFalse => cases counted

theorem layersOf_ethernet {data : Bytes} (long : 14 ≤ data.length) :
    layersOf 1 data = .ethernet :: carriedLayers data := by
  rw [layersOf, if_pos rfl, ethernetLayers, if_pos long]

/-- Once a layer above Ethernet is counted, padding is not seen. -/
theorem padding_unseen {linkType : Int} {data : Bytes} {l : Layer} (above : l ≠ .ethernet)
    (counted : l ∈ layersOf linkType data) (pad : Bytes) :
    layersOf linkType (data ++ pad) = layersOf linkType data ∧
      handed linkType (data ++ pad) = handed linkType data := by
  rcases link_of_mem counted with ⟨rfl, long, ethernet | carried⟩ | ⟨other, ip, counted⟩
  · exact absurd ethernet above
  · have some := List.ne_nil_of_mem carried
    rw [layersOf_ethernet long, layersOf_ethernet (long_append long pad),
      carriedLayers_append long some pad]
    exact ⟨rfl, handed_ethernet_append long some pad⟩
  · have some := List.ne_nil_of_mem counted
    simp only [layersOf, if_neg other, if_pos ip, ipLayers_append some pad, true_and]
    exact handed_ip_append other ip some pad

theorem mem_layersOf_append {linkType : Int} {data : Bytes} {l : Layer}
    (counted : l ∈ layersOf linkType data) (pad : Bytes) : l ∈ layersOf linkType (data ++ pad) := by
  by_cases above : l = .ethernet
  · subst above
    rcases link_of_mem counted with ⟨rfl, long, -⟩ | ⟨-, -, counted⟩
    · rw [layersOf_ethernet (long_append long pad)]
      exact List.mem_cons_self
    · have none := (count_ipPaths _ (ipLayers_mem data)).1
      exact absurd counted (List.count_eq_zero.mp none)
  · rw [(padding_unseen above counted pad).1]
    exact counted

theorem ethertypeOf?_append {linkType : Int} {data : Bytes} {l : Layer}
    (counted : l ∈ layersOf linkType data) (pad : Bytes) :
    ethertypeOf? linkType (data ++ pad) = ethertypeOf? linkType data := by
  rcases link_of_mem counted with ⟨rfl, long, -⟩ | ⟨other, -, -⟩
  · rw [ethertypeOf?, if_pos ⟨rfl, long_append long pad⟩, ethertypeOf?, if_pos ⟨rfl, long⟩,
      (word_drop_append long pad).1]
  · rw [ethertypeOf?, if_neg (fun h => other h.1), ethertypeOf?, if_neg (fun h => other h.1)]

end Dissect

theorem Counters.eq_of {c c' : Counters} (frames : ∀ l, c.frames l = c'.frames l)
    (ethertypes : c.ethertypes = c'.ethertypes) : c = c' := by
  cases c
  cases c'
  have ethernet := frames .ethernet
  have arp := frames .arp
  have ipv4 := frames .ipv4
  have ipv6 := frames .ipv6
  have icmp := frames .icmp
  have udp := frames .udp
  simp only [Counters.frames] at *
  simp only [ethernet, arp, ipv4, ipv6, icmp, udp, ethertypes]

namespace Dissection

open Dissect

theorem raised_iff (d : Dissection) (p : Packet) (l : Layer) :
    d.counters.frames l < (d.add p).1.counters.frames l ↔ l ∈ layersOf p.linkType p.data := by
  rw [frames_add, ← List.count_pos_iff]
  omega

/-- Octets appended to a packet take no layer from it and leave the ethertype that it records. If it
is counted as ARP or IP, they change no count, and the callbacks from the IP layer down are handed
the same headers and payloads in the same order. -/
theorem counters_of_padded (time : Option Float) (linkType : Int) (data pad : Bytes)
    (d : Dissection) :
    let bare := (d.add ⟨time, linkType, data⟩).1.counters
    let padded := (d.add ⟨time, linkType, data ++ pad⟩).1.counters
    (∀ l, d.counters.frames l < bare.frames l → d.counters.frames l < padded.frames l) ∧
      (bare.ethertypes ≠ d.counters.ethertypes → padded.ethertypes = bare.ethertypes) ∧
      ((∃ l ∈ [Layer.arp, .ipv4, .ipv6], d.counters.frames l < bare.frames l) →
        padded = bare ∧ handed linkType (data ++ pad) = handed linkType data) := by
  intro bare padded
  have same_table {l : Layer} (counted : l ∈ layersOf linkType data) :
      padded.ethertypes = bare.ethertypes := by
    simp only [bare, padded, ethertypes_add, ethertypeOf?_append counted]
  refine ⟨fun l raised => ?_, fun recorded => ?_, fun ⟨l, network, raised⟩ => ?_⟩
  · have counted := (raised_iff d _ l).mp raised
    exact (raised_iff d _ l).mpr (mem_layersOf_append counted pad)
  · have ethernet := (within_layersOf linkType data).ethernet
    cases known : ethertypeOf? linkType data with
    | none =>
      refine absurd ?_ recorded
      simp only [bare, ethertypes_add, known]
      rfl
    | some type =>
      rw [known] at ethernet
      exact same_table (List.count_pos_iff.mp (Nat.lt_of_lt_of_eq Nat.one_pos ethernet.symm))
  · have counted := (raised_iff d _ l).mp raised
    have above : l ≠ .ethernet := by
      rintro rfl
      revert network
      decide
    obtain ⟨layers, same⟩ := padding_unseen above counted pad
    refine ⟨Counters.eq_of (fun l => ?_) (same_table counted), same⟩
    simp only [bare, padded, frames_add, layers]

theorem counters_of_padded_datagram :
    let bare := (add {} ⟨none, 1, datagram⟩).1.counters
    let padded := (add {} ⟨none, 1, datagram ++ [1, 2, 3]⟩).1.counters
    ({} : Counters).frames .ipv4 < bare.frames .ipv4 ∧
      ({} : Counters).frames .udp < bare.frames .udp ∧
      ({} : Counters).frames .udp < padded.frames .udp ∧ padded = bare ∧
      handed 1 (datagram ++ [1, 2, 3]) = handed 1 datagram := by
  intro bare padded
  have ipv4 : Layer.ipv4 ∈ layersOf 1 datagram := by decide
  have udp : Layer.udp ∈ layersOf 1 datagram := by decide
  have raised_ipv4 := (raised_iff {} ⟨none, 1, datagram⟩ .ipv4).mpr ipv4
  have raised_udp := (raised_iff {} ⟨none, 1, datagram⟩ .udp).mpr udp
  have h := counters_of_padded none 1 datagram [1, 2, 3] {}
  obtain ⟨same, handed⟩ := h.2.2 ⟨.ipv4, by decide, raised_ipv4⟩
  exact ⟨raised_ipv4, raised_udp, h.1 .udp raised_udp, same, handed⟩

end Dissection

end PacketLayers
