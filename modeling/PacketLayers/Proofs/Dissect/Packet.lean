import PacketLayers.Proofs.Decode.Walk
import PacketLayers.Proofs.Dissect.Counters
import PacketLayers.Proofs.Protocol.Acceptance

namespace PacketLayers

namespace Dissect

/-- The layers of octets offered as an IPv4 packet. Only whole datagrams have more than one. -/
def ipv4Layers (p : Bytes) : List Layer :=
  if Ipv4.Holds p then
    .ipv4 ::
      if ¬ Ipv4.Whole p then []
      else if p.octet 9 = 1 then if Icmp.Holds (Ipv4.content p) then [.icmp] else []
      else if p.octet 9 = 17 then if Udp.Holds (Ipv4.content p) then [.udp] else []
      else []
  else []

/-- The layers of octets offered as an IPv6 packet. -/
def ipv6Layers (p : Bytes) : List Layer :=
  if Ipv6.Holds p then
    .ipv6 ::
      if p.octet 6 = 17 then if Udp.Holds (Ipv6.content p) then [.udp] else []
      else []
  else []

/-- The layers behind the header of an Ethernet frame. -/
def carriedLayers (data : Bytes) : List Layer :=
  if data.word 12 = 0x0806 then if Arp.Holds (data.drop 14) then [.arp] else []
  else if data.word 12 = 0x0800 then ipv4Layers (data.drop 14)
  else if data.word 12 = 0x86DD then ipv6Layers (data.drop 14)
  else []

def ethernetLayers (data : Bytes) : List Layer :=
  if 14 ≤ data.length then .ethernet :: carriedLayers data else []

def ipLayers (data : Bytes) : List Layer :=
  if data.octet 0 / 16 = 4 then ipv4Layers data
  else if data.octet 0 / 16 = 6 then ipv6Layers data
  else []

def supported : List Int := [1, 101, 228, 229]

/-- The layers that a packet adds one frame to. -/
def layersOf (linkType : Int) (data : Bytes) : List Layer :=
  if linkType = 1 then ethernetLayers data
  else if linkType ∈ supported then ipLayers data
  else []

/-- The ethertype that a packet adds one frame to. -/
def ethertypeOf? (linkType : Int) (data : Bytes) : Option Nat :=
  if linkType = 1 ∧ 14 ≤ data.length then some (data.word 12) else none

end Dissect

namespace Subscribers

def countedBelow (s : Subscribers Tally) (f : Frame) : List Counted :=
  (s.deliver f).calls.map Call.counted

theorem countedBelow_stage {parent child : Format} {bs payload : Bytes}
    (fits : parent.headerLength ≤ bs.length)
    (carried : (Frame.split parent bs fits).payload = payload)
    {announces : (parent : Frame) → Bool} {announced : Prop} [Decidable announced]
    (header : announces (Frame.split parent bs fits) = true ↔ announced)
    {inner : Subscribers Tally} (quiet : inner.Quiet) {below : List Layer}
    (body : (Frame.parse child payload).toOption.toList.flatMap inner.countedBelow =
      below.map .frame) (next : Subscribers Tally) :
    countedBelow (stage child announces inner next) (Frame.split parent bs fits) =
      (if announced then below else []).map .frame ++
        countedBelow next (Frame.split parent bs fits) := by
  have counted : (Stage.parse ⟨child, inner⟩ payload).calls.map Call.counted =
      below.map .frame := by
    rw [Stage.calls_parse quiet, List.map_flatMap]
    exact body
  rw [countedBelow, calls_carried fits carried child header quiet, List.map_append]
  by_cases told : announced
  · rw [if_pos told, if_pos told, counted, countedBelow]
  · rw [if_neg told, if_neg told, countedBelow]
    rfl

end Subscribers

theorem Frame.flatMap_parse {format : Format} {bs : Bytes} {holds : Prop} [Decidable holds]
    (rule : Accepts format bs ↔ holds) {s : Subscribers Tally} {below : List Layer}
    (counts : ∀ fits, holds → s.countedBelow (split format bs fits) = below.map .frame) :
    (parse format bs).toOption.toList.flatMap s.countedBelow =
      (if holds then below else []).map .frame := by
  by_cases accepted : Accepts format bs
  · have here := rule.mp accepted
    rw [parse_of_accepts accepted, if_pos here, ← counts accepted.1 here]
    exact List.flatMap_singleton _ _
  · rw [parse_of_not_accepts accepted, if_neg (mt rule.mpr accepted)]
    rfl

open Subscribers Dissect

theorem quiet_counting (l : Layer) : (counting l).Quiet := trivial

theorem counted_counting {format : Format} {bs : Bytes} {holds : Prop} [Decidable holds]
    (rule : Frame.Accepts format bs ↔ holds) (l : Layer) :
    (Frame.parse format bs).toOption.toList.flatMap (counting l).countedBelow =
      (if holds then [l] else []).map .frame :=
  Frame.flatMap_parse rule fun _ _ => rfl

namespace Ipv4

theorem quiet_below : belowIpv4.Quiet := ⟨quiet_counting .icmp, quiet_counting .udp, trivial⟩

theorem counted_below (p : Bytes) :
    (Frame.parse format p).toOption.toList.flatMap belowIpv4.countedBelow =
      (ipv4Layers p).map .frame := by
  refine Frame.flatMap_parse (accepts_iff p) fun fits packet => ?_
  have carried := payload_eq packet fits
  have icmp := countedBelow_stage fits carried (announces_iff packet.1 Icmp.format 1)
    (quiet_counting .icmp) (counted_counting (Icmp.accepts_iff _) .icmp)
    (stage Udp.format Udp.overIpv4.announces (counting .udp) done)
  have udp := countedBelow_stage fits carried (announces_iff packet.1 Udp.format 17)
    (quiet_counting .udp) (counted_counting (Udp.accepts_iff _) .udp) done
  refine (congrArg (Counted.frame .ipv4 :: ·) (icmp.trans (congrArg _ udp))).trans ?_
  rw [List.map_cons]
  congr 1
  by_cases whole : Whole p
  · by_cases one : p.octet 9 = 1
    · simp [whole, one, countedBelow]
    · simp [whole, one, countedBelow]
  · simp [whole, countedBelow]

end Ipv4

namespace Ipv6

theorem quiet_below : belowIpv6.Quiet := ⟨quiet_counting .udp, trivial⟩

theorem counted_below (p : Bytes) :
    (Frame.parse format p).toOption.toList.flatMap belowIpv6.countedBelow =
      (ipv6Layers p).map .frame := by
  refine Frame.flatMap_parse (accepts_iff p) fun fits packet => ?_
  have udp := countedBelow_stage fits (payload_eq packet fits)
    (announces_iff packet.1 Udp.format 17)
    (quiet_counting .udp) (counted_counting (Udp.accepts_iff _) .udp) done
  refine (congrArg (Counted.frame .ipv6 :: ·) udp).trans ?_
  simp [countedBelow]

end Ipv6

namespace Ethernet

theorem quiet_below : belowEthernet.Quiet :=
  ⟨quiet_counting .arp, Ipv4.quiet_below, Ipv6.quiet_below, trivial⟩

theorem counted_below {data : Bytes} (long : 14 ≤ data.length) :
    (Frame.parse format data).toOption.toList.flatMap belowEthernet.countedBelow =
      .frame .ethernet :: .ethertype (data.word 12) ::
        (carriedLayers data).map .frame := by
  have fits : format.headerLength ≤ data.length := long
  rw [Frame.parse_of_accepts ((accepts_iff data).mpr long), Option.toList_some,
    List.flatMap_singleton]
  have carried := payload_eq fits
  have ipv6 := countedBelow_stage fits carried (announces_iff long Ipv6.format 0x86DD)
    Ipv6.quiet_below (Ipv6.counted_below _) done
  have ipv4 := countedBelow_stage fits carried (announces_iff long Ipv4.format 0x0800)
    Ipv4.quiet_below (Ipv4.counted_below _)
    (stage Ipv6.format Ipv6.overEthernet.announces belowIpv6 done)
  have arp := countedBelow_stage fits carried (announces_iff long Arp.format 0x0806)
    (quiet_counting .arp) (counted_counting (Arp.accepts_iff _) .arp)
    (stage Ipv4.format Ipv4.overEthernet.announces belowIpv4
      (stage Ipv6.format Ipv6.overEthernet.announces belowIpv6 done))
  have type : ethertype.value (data.take 14) = data.word 12 := by
    rw [ethertype, Field.value_take (by decide), Field.value_two (by omega)]
  have behind := arp.trans (congrArg _ (ipv4.trans (congrArg _ ipv6)))
  refine (congrArg (Counted.frame .ethernet :: .ethertype (ethertype.value (data.take 14)) :: ·)
    behind).trans ?_
  rw [type]
  congr 2
  simp only [carriedLayers]
  by_cases arp : data.word 12 = 0x0806
  · simp [arp, countedBelow]
  · by_cases ipv4 : data.word 12 = 0x0800
    · simp [ipv4, countedBelow]
    · simp [arp, ipv4, countedBelow]

end Ethernet

namespace Dissect

theorem tally_parse {s : Stage Tally} (quiet : s.subscribers.Quiet) (c : Counters) (bs : Bytes) :
    Dissection.tally c (s.parse bs).steps =
      ((Frame.parse s.format bs).toOption.toList.flatMap s.subscribers.countedBelow).foldl
        Counters.count c := by
  rw [Dissection.tally_eq, Stage.calls_parse quiet, List.map_flatMap]
  rfl

theorem tally_ethernet (c : Counters) {data : Bytes} (long : 14 ≤ data.length) :
    Dissection.tally c (ethernetTree.parse data).steps =
      (Counted.frame .ethernet :: .ethertype (data.word 12) ::
        (carriedLayers data).map .frame).foldl Counters.count c :=
  (tally_parse Ethernet.quiet_below c data).trans (by rw [← Ethernet.counted_below long]; rfl)

theorem tally_ethernet_short (c : Counters) {data : Bytes} (short : ¬ 14 ≤ data.length) :
    Dissection.tally c (ethernetTree.parse data).steps = c := by
  have refused : (Frame.parse Ethernet.format data).toOption = none :=
    Frame.parse_of_not_accepts (mt (Ethernet.accepts_iff data).mp short)
  exact (tally_parse Ethernet.quiet_below c data).trans (by rw [ethernetTree, refused]; rfl)

theorem tally_ipv4 (c : Counters) (data : Bytes) :
    Dissection.tally c (ipv4Tree.parse data).steps =
      ((ipv4Layers data).map .frame).foldl Counters.count c :=
  (tally_parse Ipv4.quiet_below c data).trans (by rw [← Ipv4.counted_below]; rfl)

theorem tally_ipv6 (c : Counters) (data : Bytes) :
    Dissection.tally c (ipv6Tree.parse data).steps =
      ((ipv6Layers data).map .frame).foldl Counters.count c :=
  (tally_parse Ipv6.quiet_below c data).trans (by rw [← Ipv6.counted_below]; rfl)

theorem tally_rawIp (c : Counters) (data : Bytes) :
    Dissection.tally c (rawIp data) =
      ((ipLayers data).map .frame).foldl Counters.count c := by
  cases data with
  | nil => rfl
  | cons b rest =>
    have version : ipVersion? (b :: rest) = some (Bytes.octet (b :: rest) 0 / 16) := rfl
    simp only [rawIp, version, ipLayers]
    by_cases four : Bytes.octet (b :: rest) 0 / 16 = 4
    · simp only [four, if_true]
      exact tally_ipv4 c _
    · by_cases six : Bytes.octet (b :: rest) 0 / 16 = 6
      · simp only [six, Nat.reduceEqDiff, if_false, if_true]
        exact tally_ipv6 c _
      · simp only [if_neg four, if_neg six, List.map_nil, List.foldl_nil]
        split
        · rename_i h
          exact absurd (Option.some.inj h) four
        · rename_i h
          exact absurd (Option.some.inj h) six
        · rfl

theorem count_map_frame (ls : List Layer) (l : Layer) :
    (ls.map Counted.frame).count (.frame l) = ls.count l := by
  induction ls with
  | nil => rfl
  | cons k ls ih => simp [List.count_cons, ih]

theorem count_map_frame_ethertype (ls : List Layer) (type : Nat) :
    (ls.map Counted.frame).count (.ethertype type) = 0 := by
  simp [List.count_eq_zero]

theorem isIp_iff (linkType : Int) (other : linkType ≠ 1) :
    LinkType.isIp linkType = true ↔ linkType ∈ supported := by
  simp [LinkType.isIp, LinkType.raw, LinkType.ipv4, LinkType.ipv6, supported, other, or_assoc]

theorem packet?_ip {linkType : Int} (other : linkType ≠ 1) (ip : linkType ∈ supported)
    (data : Bytes) : packet? linkType data = some (rawIp data) := by
  rw [packet?, LinkType.ethernet, if_neg other, if_pos ((isIp_iff linkType other).mpr ip)]

theorem tally_packet (linkType : Int) (data : Bytes) (c : Counters) :
    ∃ xs : List Counted,
      ((packet? linkType data).elim c (Dissection.tally c)) = xs.foldl Counters.count c ∧
        (∀ l, xs.count (.frame l) = (layersOf linkType data).count l) ∧
        ∀ type, xs.count (.ethertype type) =
          if ethertypeOf? linkType data = some type then 1 else 0 := by
  by_cases ethernet : linkType = 1
  · simp only [packet?, LinkType.ethernet, layersOf, ethertypeOf?, ethernet, if_true, true_and]
    by_cases long : 14 ≤ data.length
    · refine ⟨_, tally_ethernet c long, fun l => ?_, fun type => ?_⟩
      · simp [List.count_cons, count_map_frame, ethernetLayers, long]
      · simp [List.count_cons, count_map_frame_ethertype, long]
    · refine ⟨[], tally_ethernet_short c long, fun l => ?_, fun type => ?_⟩
      · simp [ethernetLayers, long]
      · simp [long]
  · simp only [packet?, LinkType.ethernet, layersOf, ethertypeOf?, ethernet, if_false, false_and,
      isIp_iff linkType ethernet]
    by_cases ip : linkType ∈ supported
    · simp only [if_pos ip]
      exact ⟨_, tally_rawIp c data, count_map_frame _, count_map_frame_ethertype _⟩
    · simp only [if_neg ip]
      exact ⟨[], rfl, fun _ => rfl, fun _ => rfl⟩

theorem packet?_eq_none_iff (linkType : Int) (data : Bytes) :
    packet? linkType data = none ↔ linkType ∉ supported := by
  by_cases ethernet : linkType = 1
  · simp [packet?, LinkType.ethernet, supported, ethernet]
  · simp [packet?, LinkType.ethernet, ethernet, ← isIp_iff linkType ethernet]

end Dissect

namespace Dissection

theorem counters_add (d : Dissection) (p : Packet) :
    (d.add p).1.counters =
      (Dissect.packet? p.linkType p.data).elim d.counters (tally d.counters) := by
  unfold add
  cases Dissect.packet? p.linkType p.data <;> rfl

/-- A packet adds one frame to each layer that the rule names and one to its ethertype, whatever
was counted before; a packet of a link type without a decode tree adds nothing. -/
theorem counters_of_add {d : Dissection} (ordered : d.counters.Ordered) (p : Packet) :
    let after := (d.add p).1.counters
    after.Ordered ∧
      (∀ l, after.frames l = d.counters.frames l + (layersOf p.linkType p.data).count l) ∧
      (∀ type, after.ethertypes.lookup type =
        if ethertypeOf? p.linkType p.data = some type then
          some (Counters.lookup type d.counters.ethertypes + 1)
        else d.counters.ethertypes.lookup type) ∧
      (Dissect.packet? p.linkType p.data = none ↔ p.linkType ∉ supported) ∧
      (p.linkType ∉ supported → after = d.counters) := by
  obtain ⟨xs, after, layers, ethertypes⟩ := tally_packet p.linkType p.data d.counters
  refine ⟨?_, fun l => ?_, fun type => ?_, packet?_eq_none_iff _ _, fun unsupported => ?_⟩
  · rw [counters_add, after]
    exact ordered.foldl xs
  · rw [counters_add, after, Counters.frames_foldl, layers]
  · have occurs : Counted.ethertype type ∈ xs ↔ ethertypeOf? p.linkType p.data = some type := by
      rw [← List.count_pos_iff, ethertypes]
      split <;> simp_all
    rw [counters_add, after, Counters.lookup_foldl ordered, ethertypes]
    simp only [occurs]
    by_cases here : ethertypeOf? p.linkType p.data = some type
    · simp only [if_pos here]
    · simp only [if_neg here]
  · rw [counters_add, (packet?_eq_none_iff _ p.data).mpr unsupported]
    rfl

/-- An Ethernet frame with an empty UDP datagram over IPv4, and two octets of padding. -/
def datagram : Bytes := [
  2, 0, 0, 0, 0, 2, 2, 0, 0, 0, 0, 1, 0x08, 0x00,
  0x45, 0, 0, 28, 0, 0, 0x40, 0, 64, 17, 0x26, 0xCF, 10, 0, 0, 1, 10, 0, 0, 2,
  0x0F, 0xA0, 0, 53, 0, 8, 0, 0, 0xFF, 0xFF]

theorem counters_of_datagram :
    let c : Counters := { ethernet := 1, ethertypes := [(0x0800, 1)] }
    let after := (add { counters := c } ⟨none, 1, datagram⟩).1.counters
    c.Ordered ∧ (∀ l, after.frames l = c.frames l + [Layer.ethernet, .ipv4, .udp].count l) ∧
      after.ethertypes.lookup 0x0800 = some 2 := by
  intro c after
  have ordered : c.Ordered := List.pairwise_singleton _ _
  have h := counters_of_add (d := { counters := c }) ordered ⟨none, 1, datagram⟩
  have layers : layersOf 1 datagram = [.ethernet, .ipv4, .udp] := by decide
  exact ⟨ordered, fun l => layers ▸ h.2.1 l, h.2.2.1 0x0800⟩

end Dissection

end PacketLayers
