import PacketLayers.Proofs.Dissect.Balance

/-!
IP packets behind an Ethernet header and bare ones. Either tree counts the same for the same packet,
and the version that a bare packet begins with chooses the one tree that can accept it.
-/
namespace PacketLayers

namespace Ethernet

def octets (addresses : Bytes) (type : Nat) (data : Bytes) : Bytes :=
  addresses ++ (ethertype.encode type ++ data)

variable {addresses : Bytes} (twelve : addresses.length = 12)
include twelve

theorem word_octets {type : Nat} (small : type < 65536) (data : Bytes) :
    (octets addresses type data).word 12 = type := by
  have high := Bytes.octet_append_length addresses (ethertype.encode type ++ data) 0
  have low := Bytes.octet_append_length addresses (ethertype.encode type ++ data) 1
  have first : (ethertype.encode type ++ data).octet 0 = type / 256 % 256 := by
    simp [ethertype, Field.encode, Bytes.toBig, Bytes.toLittle, Bytes.octet]
  have second : (ethertype.encode type ++ data).octet 1 = type % 256 := by
    simp [ethertype, Field.encode, Bytes.toBig, Bytes.toLittle, Bytes.octet]
  rw [twelve] at high low
  rw [Bytes.word, octets, high, low, first, second]
  omega

theorem drop_octets (type : Nat) (data : Bytes) : (octets addresses type data).drop 14 = data := by
  have header : (addresses ++ ethertype.encode type).length = 14 := by
    rw [List.length_append, twelve, Field.encode, Bytes.length_toBig]
    rfl
  rw [octets, ← List.append_assoc, ← header, List.drop_left]

theorem length_octets (type : Nat) (data : Bytes) :
    14 ≤ (octets addresses type data).length := by
  simp only [octets, List.length_append, twelve, Field.encode, Bytes.length_toBig, ethertype]
  omega

end Ethernet

namespace Dissect

/-- The IP versions, each with the ethertype that announces it. -/
def ipVersions : List (Nat × Nat) := [(4, 0x0800), (6, 0x86DD)]

theorem ipVersion?_eq_some_iff {data : Bytes} {version : Nat} (known : version ≠ 0) :
    ipVersion? data = some version ↔ data.octet 0 / 16 = version := by
  cases data with
  | nil => exact ⟨nofun, fun h => absurd h.symm known⟩
  | cons b rest => exact Option.some_inj

theorem ipv4Layers_of_other {data : Bytes} (other : data.octet 0 / 16 ≠ 4) :
    ipv4Layers data = [] :=
  if_neg fun packet => other packet.2.1

theorem ipv6Layers_of_other {data : Bytes} (other : data.octet 0 / 16 ≠ 6) :
    ipv6Layers data = [] :=
  if_neg fun packet => other packet.2.1

theorem ipLayers_eq (data : Bytes) :
    ipLayers data = ipv4Layers data ++ ipv6Layers data ∧
      ipLayers data = ipv6Layers data ++ ipv4Layers data := by
  unfold ipLayers
  by_cases four : data.octet 0 / 16 = 4
  · have none : ipv6Layers data = [] := ipv6Layers_of_other (by omega)
    simp [four, none]
  · by_cases six : data.octet 0 / 16 = 6
    · simp [six, ipv4Layers_of_other four]
    · simp [four, six, ipv4Layers_of_other four, ipv6Layers_of_other six]

theorem tally_rawIp_both (c : Counters) (data : Bytes) :
    Dissection.tally c (rawIp data) =
        Dissection.tally (Dissection.tally c (ipv4Tree.parse data).steps)
          (ipv6Tree.parse data).steps ∧
      Dissection.tally c (rawIp data) =
        Dissection.tally (Dissection.tally c (ipv6Tree.parse data).steps)
          (ipv4Tree.parse data).steps := by
  obtain ⟨first, second⟩ := ipLayers_eq data
  simp only [tally_ipv4, tally_ipv6, tally_rawIp, ← List.foldl_append, ← List.map_append, ← first,
    ← second, and_self]

theorem layersOf_ip {link : Int} (ip : link ∈ [101, 228, 229]) (data : Bytes) :
    layersOf link data = ipLayers data ∧ packet? link data = some (rawIp data) := by
  have other : link ≠ 1 := by
    rintro rfl
    revert ip
    decide
  have supported : link ∈ supported := List.mem_cons_of_mem 1 ip
  refine ⟨?_, packet?_ip other supported data⟩
  rw [layersOf, if_neg other, if_pos supported]

/-- An IP packet has the same layers behind an Ethernet header of its version as bare, and behind
the header of the other version it has none. -/
theorem layersOf_octets {addresses : Bytes} (twelve : addresses.length = 12) (data : Bytes)
    {version type : Nat} (known : (version, type) ∈ ipVersions) :
    layersOf 1 (Ethernet.octets addresses type data) =
      .ethernet :: if ipVersion? data = some version then ipLayers data else [] := by
  have long := Ethernet.length_octets twelve type data
  have behind := Ethernet.drop_octets twelve type data
  simp only [layersOf, if_true, ethernetLayers, if_pos long, carriedLayers, behind]
  rcases List.mem_cons.mp known with ipv4 | known
  · obtain ⟨rfl, rfl⟩ := Prod.mk.inj ipv4
    rw [Ethernet.word_octets twelve (by decide)]
    have iff : ipVersion? data = some 4 ↔ _ := ipVersion?_eq_some_iff (by decide)
    simp only [iff, ipLayers]
    by_cases four : data.octet 0 / 16 = 4
    · simp [four]
    · simp [four, ipv4Layers_of_other four]
  · obtain ⟨rfl, rfl⟩ := Prod.mk.inj (List.mem_singleton.mp known)
    rw [Ethernet.word_octets twelve (by decide)]
    have iff : ipVersion? data = some 6 ↔ _ := ipVersion?_eq_some_iff (by decide)
    simp only [iff, ipLayers]
    by_cases six : data.octet 0 / 16 = 6
    · simp [six]
    · simp [six, ipv6Layers_of_other six]

end Dissect

/-- Whether a packet adds so many frames to a layer, whatever was counted before. -/
def Packet.Adds (p : Packet) (l : Layer) (n : Nat) : Prop :=
  ∀ d : Dissection, (d.add p).1.counters.frames l = d.counters.frames l + n

namespace Dissection

open Dissect

theorem adds_of_layers {p : Packet} {layers : List Layer}
    (same : layersOf p.linkType p.data = layers) (l : Layer) : p.Adds l (layers.count l) := by
  intro d
  rw [frames_add, same]

/-- Behind an Ethernet header that announces its version, an IP packet adds to every other layer
what it adds bare; behind such a header, octets of no or another version add to none. Bare octets
count what the trees of both versions count, whichever is offered them first. -/
theorem counters_of_carried {addresses : Bytes} (twelve : addresses.length = 12) (data : Bytes)
    (time time' : Option Float) :
    (∀ version type, (version, type) ∈ ipVersions →
      let carried : Packet := ⟨time, 1, Ethernet.octets addresses type data⟩
      (ipVersion? data = some version → ∀ l ≠ .ethernet, ∃ n, carried.Adds l n ∧
        ∀ link ∈ [101, 228, 229], Packet.Adds ⟨time', link, data⟩ l n) ∧
      (ipVersion? data ≠ some version → ∀ l ≠ .ethernet, carried.Adds l 0)) ∧
    ∀ link ∈ [101, 228, 229], ∀ d : Dissection,
      let after := (d.add ⟨time', link, data⟩).1.counters
      after = tally (tally d.counters (ipv4Tree.parse data).steps) (ipv6Tree.parse data).steps ∧
        after =
          tally (tally d.counters (ipv6Tree.parse data).steps) (ipv4Tree.parse data).steps := by
  refine ⟨fun version type known => ?_, fun link ip d => ?_⟩
  · intro carried
    have layers := layersOf_octets twelve data known
    have adds (l : Layer) := adds_of_layers (p := carried) layers l
    constructor
    · intro version l other
      have behind := adds l
      rw [if_pos version, List.count_cons_of_ne other.symm] at behind
      exact ⟨_, behind, fun link ip => adds_of_layers (layersOf_ip ip data).1 l⟩
    · intro version l other
      have behind := adds l
      rw [if_neg version, List.count_cons_of_ne other.symm] at behind
      exact behind
  · rw [counters_add, (layersOf_ip ip data).2]
    exact tally_rawIp_both d.counters data

theorem counters_of_carried_datagram :
    let addresses := datagram.take 12
    let packet := datagram.drop 14
    addresses.length = 12 ∧ ipVersion? packet = some 4 ∧ ipVersion? packet ≠ some 6 ∧
      Ethernet.octets addresses 0x0800 packet = datagram ∧
      (∃ n, Packet.Adds ⟨none, 1, datagram⟩ .udp n ∧ Packet.Adds ⟨none, 228, packet⟩ .udp n) ∧
      Packet.Adds ⟨none, 1, Ethernet.octets addresses 0x86DD packet⟩ .udp 0 := by
  intro addresses packet
  have twelve : addresses.length = 12 := by decide
  have four : ipVersion? packet = some 4 := by decide
  have other : ipVersion? packet ≠ some 6 := by decide
  have whole : Ethernet.octets addresses 0x0800 packet = datagram := by decide
  have h := (counters_of_carried twelve packet none none).1
  obtain ⟨n, carried, bare⟩ := (h 4 0x0800 (by decide)).1 four .udp (by decide)
  rw [whole] at carried
  exact ⟨twelve, four, other, whole, ⟨n, carried, bare 228 (by decide)⟩,
    (h 6 0x86DD (by decide)).2 other .udp (by decide)⟩

end Dissection

end PacketLayers
