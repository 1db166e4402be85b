import PacketLayers.Proofs.Dissect.Paths

/-!
How the counts of a report relate. Every packet keeps the relations, since what it adds itself is
along one path of a decode tree; so the report on any run of packets has them.
-/
namespace PacketLayers

namespace Counters

theorem ethertype?_eq_some (x : Counted) (type : Nat) :
    x.ethertype? = some type ↔ x = .ethertype type := by
  cases x <;> simp [Counted.ethertype?]

theorem filterMap_ethertype? {xs : List Counted} {only : Option Nat}
    (counts : ∀ type, xs.count (.ethertype type) = if only = some type then 1 else 0) :
    xs.filterMap Counted.ethertype? = only.toList := by
  have same : (xs.filterMap Counted.ethertype?).Perm only.toList := by
    refine List.perm_iff_count.mpr fun type => ?_
    have asked : (fun x : Counted => x.ethertype? == some type) = (· == .ethertype type) := by
      funext x
      rw [Bool.eq_iff_iff, beq_iff_eq, beq_iff_eq, ethertype?_eq_some]
    rw [List.count_filterMap, asked, ← List.count_eq_countP, counts]
    cases only with
    | none => rfl
    | some key => simp [List.count_singleton]
  cases only with
  | none => exact List.perm_nil.mp same
  | some key => exact List.perm_singleton.mp same

end Counters

/-- Whether a source yields packets and then, at the next call, another reading. -/
def Pull.Yields (pulls : List Pull) (packets : List Packet) (last : Reading) : Prop :=
  packets.map .packet ++ [last] <+: pulls.map (·.reading)

namespace Dissection

open Counters

theorem frames_add (d : Dissection) (p : Packet) (l : Layer) :
    (d.add p).1.counters.frames l =
      d.counters.frames l + (Dissect.layersOf p.linkType p.data).count l := by
  obtain ⟨xs, after, layers, -⟩ := Dissect.tally_packet p.linkType p.data d.counters
  rw [counters_add, after, frames_foldl, layers]

theorem ethertypes_add (d : Dissection) (p : Packet) :
    (d.add p).1.counters.ethertypes =
      (Dissect.ethertypeOf? p.linkType p.data).toList.foldl (fun table type => bump type table)
        d.counters.ethertypes := by
  obtain ⟨xs, after, -, types⟩ := Dissect.tally_packet p.linkType p.data d.counters
  rw [counters_add, after, ethertypes_foldl, filterMap_ethertype? types]

theorem packets_add (d : Dissection) (p : Packet) : (d.add p).1.packets = d.packets + 1 := by
  unfold add
  cases Dissect.packet? p.linkType p.data <;> rfl

theorem unsupported_add (d : Dissection) (p : Packet) :
    (d.add p).1.unsupported =
      d.unsupported + if p.linkType ∈ Dissect.supported then 0 else 1 := by
  have rule := Dissect.packet?_eq_none_iff p.linkType p.data
  unfold add
  cases steps : Dissect.packet? p.linkType p.data with
  | none => rw [if_neg (rule.mp steps)]
  | some steps =>
    have supported : p.linkType ∈ Dissect.supported := by simp_all
    rw [if_pos supported]
    rfl

theorem lookup_add {d : Dissection} (ordered : d.counters.Ordered) (p : Packet) (type : Nat) :
    lookup type (d.add p).1.counters.ethertypes = lookup type d.counters.ethertypes +
      (Dissect.ethertypeOf? p.linkType p.data).toList.count type := by
  rw [ethertypes_add]
  cases Dissect.ethertypeOf? p.linkType p.data with
  | none => rfl
  | some key =>
    simp only [Option.toList_some, List.foldl_cons, List.foldl_nil, lookup,
      lookup_bump key ordered, List.count_singleton, beq_iff_eq]
    split <;> rfl

theorem total_add (d : Dissection) (p : Packet) :
    total (d.add p).1.counters.ethertypes = total d.counters.ethertypes +
      (Dissect.ethertypeOf? p.linkType p.data).toList.length := by
  rw [ethertypes_add]
  cases Dissect.ethertypeOf? p.linkType p.data with
  | none => rfl
  | some key => exact total_bump key _

theorem entries_add {d : Dissection} {P : Nat × Nat → Prop} (p : Packet)
    (before : ∀ e ∈ d.counters.ethertypes, P e)
    (bumped : ∀ key, Dissect.ethertypeOf? p.linkType p.data = some key →
      ∀ e ∈ bump key d.counters.ethertypes, P e) :
    ∀ e ∈ (d.add p).1.counters.ethertypes, P e := by
  rw [ethertypes_add]
  cases known : Dissect.ethertypeOf? p.linkType p.data with
  | none => exact before
  | some key => exact bumped key known

theorem ordered_add {d : Dissection} (ordered : d.counters.Ordered) (p : Packet) :
    (d.add p).1.counters.Ordered := by
  obtain ⟨xs, after, -⟩ := Dissect.tally_packet p.linkType p.data d.counters
  rw [counters_add, after]
  exact ordered.foldl xs

/-! ### The relations along a run -/

def addAll (d : Dissection) (packets : List Packet) : Dissection :=
  packets.foldl (fun d p => (d.add p).1) d

/-- The frames of a layer that a packet adds, unless its link type is an IP one. -/
def fromOther (d : Dissection) (p : Packet) (l : Layer) : Nat :=
  if LinkType.isIp p.linkType then 0
  else (d.add p).1.counters.frames l - d.counters.frames l

def framesFromOther (l : Layer) : (d : Dissection) → List Packet → Nat
  | _, [] => 0
  | d, p :: rest => fromOther d p l + framesFromOther l (d.add p).1 rest

theorem fromOther_eq (d : Dissection) (p : Packet) (l : Layer) :
    fromOther d p l =
      if LinkType.isIp p.linkType then 0 else (Dissect.layersOf p.linkType p.data).count l := by
  rw [fromOther, frames_add, Nat.add_sub_cancel_left]

/-- The relations of a dissection's counts. Of what it was given, `ip` packets had an IP link type,
and `other` counts the frames of a layer that came from the other packets. -/
structure Balanced (d : Dissection) (ip : Nat) (other : Layer → Nat) : Prop where
  ordered : d.counters.Ordered
  words : ∀ e ∈ d.counters.ethertypes, e.1 < UInt16.size
  occur : ∀ e ∈ d.counters.ethertypes, 0 < e.2
  ethernet : d.counters.ethernet = Counters.total d.counters.ethertypes
  arp : d.counters.arp ≤ Counters.lookup 0x0806 d.counters.ethertypes
  ipv4 : other .ipv4 ≤ Counters.lookup 0x0800 d.counters.ethertypes
  ipv6 : other .ipv6 ≤ Counters.lookup 0x86DD d.counters.ethertypes
  network : d.counters.arp + d.counters.ipv4 + d.counters.ipv6 ≤ d.counters.ethernet + ip
  icmp : d.counters.icmp ≤ d.counters.ipv4
  transport : d.counters.icmp + d.counters.udp ≤ d.counters.ipv4 + d.counters.ipv6
  total : d.counters.ethernet + ip + d.unsupported ≤ d.packets

/-- What a packet keeps: each relation gains what the packet's own layers allow. -/
theorem Balanced.add {d : Dissection} {ip : Nat} {other : Layer → Nat}
    (balanced : d.Balanced ip other) (p : Packet) :
    (d.add p).1.Balanced (ip + (LinkType.isIp p.linkType).toNat)
      fun l => other l + fromOther d p l := by
  -- `within` relates what one packet counts; added to what held before it gives each relation.
  have within := Dissect.within_layersOf p.linkType p.data
  have ways := Dissect.ways_le_one p.linkType p.data
  have ethernet := frames_add d p .ethernet
  have arp := frames_add d p .arp
  have ipv4 := frames_add d p .ipv4
  have ipv6 := frames_add d p .ipv6
  have icmp := frames_add d p .icmp
  have udp := frames_add d p .udp
  simp only [frames] at ethernet arp ipv4 ipv6 icmp udp
  rw [within.ethernet] at ethernet
  exact {
    ordered := ordered_add balanced.ordered p
    words := entries_add p balanced.words fun key known e he => by
      rcases mem_bump he with he | rfl
      · exact balanced.words e he
      · exact Dissect.word_of_ethertypeOf? known
    occur := entries_add p balanced.occur fun key _ => pos_bump key balanced.occur
    ethernet := by rw [ethernet, total_add, balanced.ethernet]
    arp := by
      rw [arp, lookup_add balanced.ordered]
      exact Nat.add_le_add balanced.arp within.arp
    ipv4 := by
      rw [lookup_add balanced.ordered, fromOther_eq]
      exact Nat.add_le_add balanced.ipv4 within.ipv4
    ipv6 := by
      rw [lookup_add balanced.ordered, fromOther_eq]
      exact Nat.add_le_add balanced.ipv6 within.ipv6
    network := by
      have before := balanced.network
      have gained := within.network
      rw [within.ethernet] at gained
      omega
    icmp := by
      have before := balanced.icmp
      have gained := within.icmp
      omega
    transport := by
      have before := balanced.transport
      have gained := within.transport
      omega
    total := by
      have before := balanced.total
      rw [packets_add, unsupported_add]
      omega }

theorem balanced_start : Balanced {} 0 fun _ => 0 where
  ordered := .nil
  words := by simp
  occur := by simp
  ethernet := rfl
  arp := Nat.le_refl 0
  ipv4 := Nat.le_refl 0
  ipv6 := Nat.le_refl 0
  network := Nat.le_refl 0
  icmp := Nat.le_refl 0
  transport := Nat.le_refl 0
  total := Nat.le_refl 0

theorem Balanced.addAll {d : Dissection} {ip : Nat} {other : Layer → Nat}
    (balanced : d.Balanced ip other) (packets : List Packet) :
    (d.addAll packets).Balanced (ip + packets.countP (LinkType.isIp ·.linkType))
      fun l => other l + framesFromOther l d packets := by
  -- The first packet's share moves into what was counted before the others.
  induction packets generalizing d ip other with
  | nil => exact balanced
  | cons p packets ih =>
    have rest := ih (balanced.add p)
    have links : (LinkType.isIp p.linkType).toNat + packets.countP (LinkType.isIp ·.linkType) =
        (p :: packets).countP (LinkType.isIp ·.linkType) := by
      rw [List.countP_cons, Nat.add_comm]
      cases LinkType.isIp p.linkType <;> rfl
    simp only [Nat.add_assoc, links] at rest
    exact rest

theorem packets_addAll (d : Dissection) (packets : List Packet) :
    (d.addAll packets).packets = d.packets + packets.length := by
  induction packets generalizing d with
  | nil => rfl
  | cons p packets ih =>
    rw [List.length_cons, Nat.add_comm packets.length, ← Nat.add_assoc, ← packets_add d p]
    exact ih (d.add p).1

theorem Balanced.frames_le {d : Dissection} {ip : Nat} {other : Layer → Nat}
    (balanced : d.Balanced ip other) (l : Layer) : d.counters.frames l ≤ d.packets := by
  have network := balanced.network
  have icmp := balanced.icmp
  have transport := balanced.transport
  have total := balanced.total
  cases l <;> simp only [frames] <;> omega

theorem Balanced.count_le {d : Dissection} {ip : Nat} {other : Layer → Nat}
    (balanced : d.Balanced ip other) {e : Nat × Nat} (entry : e ∈ d.counters.ethertypes) :
    e.2 ≤ d.packets := by
  have part : e.2 ≤ Counters.total d.counters.ethertypes := le_total entry
  have whole := balanced.frames_le .ethernet
  have ethernet := balanced.ethernet
  simp only [frames] at whole
  omega

theorem run_of_yields {pulls : List Pull} {packets : List Packet} {last : Reading}
    (yields : Pull.Yields pulls packets last) (d : Dissection) :
    ∃ pull rest, pull.reading = last ∧
      (run d pulls).1 = (run (d.addAll packets) (pull :: rest)).1 := by
  induction packets generalizing d pulls with
  | nil =>
    cases pulls with
    | nil => exact absurd yields.length_le (by simp)
    | cons pull pulls =>
      have here : pull.reading = last := (List.cons_prefix_cons.mp yields).1.symm
      exact ⟨pull, pulls, here, rfl⟩
  | cons p packets ih =>
    cases pulls with
    | nil => exact absurd yields.length_le (by simp)
    | cons pull pulls =>
      obtain ⟨here, later⟩ := List.cons_prefix_cons.mp yields
      obtain ⟨last, rest, reading, ends⟩ := ih later (d.add p).1
      refine ⟨last, rest, reading, ?_⟩
      have packet : pull.reading = .packet p := here.symm
      simp only [run, packet]
      exact ends

theorem run_of_readings {packets : List Packet} {pulls : List Pull} (d : Dissection)
    (yields : pulls.map (·.reading) = packets.map .packet ++ [.finished]) :
    (run d pulls).1 = .ok (d.addAll packets) := by
  have whole : Pull.Yields pulls packets .finished :=
    ⟨[], (List.append_nil _).trans yields.symm⟩
  obtain ⟨pull, rest, ends, same⟩ := run_of_yields whole d
  rw [same]
  simp only [run, ends]

end Dissection

/-! ### The report -/

namespace Report

def framesOf (r : Report) (l : Layer) : Nat :=
  (r.layers.find? (·.layer = l.name)).elim 0 (·.frames.toNat)

def table (r : Report) : List (Nat × Nat) :=
  r.ethertypes.map fun e => (e.ethertype.toNat, e.frames.toNat)

/-- The relations of a report's counts. Of the packets dissected, `ip` had an IP link type, and
`other` counts the frames of a layer that came from the other packets. -/
structure Balanced (r : Report) (ip : Nat) (other : Layer → Nat) : Prop where
  layers : r.layers.map (·.layer) = Layer.all.map Layer.name
  ascending : r.table.Pairwise fun a b => a.1 < b.1
  occur : ∀ e ∈ r.table, 1 ≤ e.2
  ethernet : r.framesOf .ethernet = Counters.total r.table
  arp : r.framesOf .arp ≤ Counters.lookup 0x0806 r.table
  ipv4 : other .ipv4 ≤ Counters.lookup 0x0800 r.table
  ipv6 : other .ipv6 ≤ Counters.lookup 0x86DD r.table
  network : r.framesOf .arp + r.framesOf .ipv4 + r.framesOf .ipv6 ≤ r.framesOf .ethernet + ip
  icmp : r.framesOf .icmp ≤ r.framesOf .ipv4
  transport : r.framesOf .icmp + r.framesOf .udp ≤ r.framesOf .ipv4 + r.framesOf .ipv6
  total : ∃ summary, r.captureSummary = some summary ∧
    r.framesOf .ethernet + ip + r.unsupportedLinkTypes.toNat ≤ summary.packetsTotal.toNat

end Report

namespace Dissection

theorem framesOf_report (d : Dissection) (path : String) (bytes : Nat) (l : Layer) :
    (d.report path bytes).framesOf l = d.counters.frames l % UInt64.size := by
  cases l <;> exact UInt64.toNat_ofNat'

theorem table_report (d : Dissection) (path : String) (bytes : Nat)
    (words : ∀ e ∈ d.counters.ethertypes, e.1 < UInt16.size) :
    (d.report path bytes).table =
      d.counters.ethertypes.map fun e => (e.1, e.2 % UInt64.size) := by
  simp only [Dissection.report, Report.table, Counters.ethertypeSummaries, List.map_map]
  refine List.map_congr_left fun e he => ?_
  exact Prod.ext (UInt16.toNat_ofNat_of_lt' (words e he)) UInt64.toNat_ofNat'

theorem Balanced.framesOf_report {d : Dissection} {ip : Nat} {other : Layer → Nat}
    (balanced : d.Balanced ip other) (few : d.packets < UInt64.size) (path : String)
    (bytes : Nat) (l : Layer) : (d.report path bytes).framesOf l = d.counters.frames l := by
  rw [Dissection.framesOf_report]
  exact Nat.mod_eq_of_lt (Nat.lt_of_le_of_lt (balanced.frames_le l) few)

theorem Balanced.table_report {d : Dissection} {ip : Nat} {other : Layer → Nat}
    (balanced : d.Balanced ip other) (few : d.packets < UInt64.size) (path : String)
    (bytes : Nat) : (d.report path bytes).table = d.counters.ethertypes := by
  rw [Dissection.table_report d path bytes balanced.words]
  refine (List.map_congr_left fun e he => ?_).trans (List.map_id _)
  have fits : e.2 < UInt64.size := Nat.lt_of_le_of_lt (balanced.count_le he) few
  rw [Nat.mod_eq_of_lt fits]
  rfl

theorem Balanced.report {d : Dissection} {ip : Nat} {other : Layer → Nat}
    (balanced : d.Balanced ip other) (few : d.packets < UInt64.size) (path : String)
    (bytes : Nat) : (d.report path bytes).Balanced ip other := by
  have layers := balanced.framesOf_report few path bytes
  have table := balanced.table_report few path bytes
  exact {
    layers := rfl
    ascending := table ▸ balanced.ordered
    occur := table ▸ balanced.occur
    ethernet := by
      rw [layers, table]
      exact balanced.ethernet
    arp := by
      rw [layers, table]
      exact balanced.arp
    ipv4 := table ▸ balanced.ipv4
    ipv6 := table ▸ balanced.ipv6
    network := by
      simp only [layers]
      exact balanced.network
    icmp := by
      simp only [layers]
      exact balanced.icmp
    transport := by
      simp only [layers]
      exact balanced.transport
    total := by
      have total := balanced.total
      have unsupported : d.unsupported < UInt64.size := by omega
      refine ⟨_, rfl, ?_⟩
      rw [layers]
      simp only [Dissection.report, UInt64.toNat_ofNat_of_lt' few,
        UInt64.toNat_ofNat_of_lt' unsupported]
      exact total }

def reportOn (path : String) (bytes : Nat) (packets : List Packet) : Report :=
  (addAll {} packets).report path bytes

theorem balanced_packets (packets : List Packet) :
    (addAll {} packets).Balanced (packets.countP (LinkType.isIp ·.linkType))
      fun l => framesFromOther l {} packets := by
  have run := balanced_start.addAll packets
  simp only [Nat.zero_add] at run
  exact run

theorem packets_lt {packets : List Packet} (few : packets.length < UInt64.size) :
    (addAll {} packets).packets < UInt64.size := by
  rw [packets_addAll]
  exact Nat.lt_of_le_of_lt (Nat.le_of_eq (Nat.zero_add _)) few

theorem balanced_reportOn {packets : List Packet} (few : packets.length < UInt64.size)
    (path : String) (bytes : Nat) :
    (reportOn path bytes packets).Balanced (packets.countP (LinkType.isIp ·.linkType))
      fun l => framesFromOther l {} packets :=
  (balanced_packets packets).report (packets_lt few) path bytes

theorem framesOf_reportOn {packets : List Packet} (few : packets.length < UInt64.size)
    (path : String) (bytes : Nat) (l : Layer) :
    (reportOn path bytes packets).framesOf l = (addAll {} packets).counters.frames l :=
  (balanced_packets packets).framesOf_report (packets_lt few) path bytes l

theorem framesOf_concat {before : List Packet} {p : Packet}
    (few : (before ++ [p]).length < UInt64.size) (path : String) (bytes : Nat) (l : Layer) :
    let framesBefore := (reportOn path bytes before).framesOf l
    framesBefore ≤ (reportOn path bytes (before ++ [p])).framesOf l ∧
      (reportOn path bytes (before ++ [p])).framesOf l ≤ framesBefore + 1 := by
  intro framesBefore
  have shorter : before.length < UInt64.size := by
    rw [List.length_append] at few
    omega
  have raised : (reportOn path bytes (before ++ [p])).framesOf l =
      framesBefore + (Dissect.layersOf p.linkType p.data).count l := by
    simp only [framesBefore, framesOf_reportOn few, framesOf_reportOn shorter, addAll,
      List.foldl_append, List.foldl_cons, List.foldl_nil]
    exact frames_add _ p l
  have once := (Dissect.within_layersOf p.linkType p.data).once l
  omega

/-- The counts of a report relate as the layers do. They do so for any packets that a source yields
before its end, of any link types and octets, and no packet is counted twice in a layer. -/
theorem balanced_of_readings (path : String) (bytes : Nat) {packets : List Packet}
    {pulls : List Pull} (few : packets.length < UInt64.size)
    (yields : pulls.map (·.reading) = packets.map .packet ++ [.finished]) :
    (dissectPulls path (.ok bytes) pulls).1 = .ok (reportOn path bytes packets) ∧
      (reportOn path bytes packets).Balanced (packets.countP (LinkType.isIp ·.linkType))
        (fun l => framesFromOther l {} packets) ∧
      ∀ before p after, packets = before ++ p :: after → ∀ l,
        let framesBefore := (reportOn path bytes before).framesOf l
        framesBefore ≤ (reportOn path bytes (before ++ [p])).framesOf l ∧
          (reportOn path bytes (before ++ [p])).framesOf l ≤ framesBefore + 1 := by
  refine ⟨?_, balanced_reportOn few path bytes, ?_⟩
  · have ends := run_of_readings {} yields
    unfold dissectPulls
    generalize run {} pulls = outcome at ends
    obtain ⟨result, events⟩ := outcome
    cases ends
    rfl
  · intro before p after same l
    refine framesOf_concat ?_ path bytes l
    rw [same, List.length_append, List.length_cons] at few
    rw [List.length_append, List.length_singleton]
    omega

def mixedPackets : List Packet :=
  [⟨none, 1, datagram⟩, ⟨none, 101, datagram.drop 14⟩, ⟨none, 147, [0]⟩]

theorem balanced_of_readings_mixed :
    let pulls := mixedPackets.map (fun p => Pull.mk [] (.packet p)) ++ [⟨[], .finished⟩]
    mixedPackets.length < UInt64.size ∧
      pulls.map (·.reading) = mixedPackets.map .packet ++ [.finished] ∧
      (dissectPulls "mixed" (.ok 1) pulls).1 = .ok (reportOn "mixed" 1 mixedPackets) ∧
      (reportOn "mixed" 1 mixedPackets).Balanced 1 fun l => framesFromOther l {} mixedPackets := by
  intro pulls
  have few : mixedPackets.length < UInt64.size := by decide
  have report := @balanced_of_readings "mixed" 1 mixedPackets pulls few rfl
  exact ⟨few, rfl, report.1, report.2.1⟩

end Dissection

end PacketLayers
