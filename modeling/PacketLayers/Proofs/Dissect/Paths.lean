import PacketLayers.Proofs.Dissect.Packet

namespace PacketLayers

namespace Dissect

def ipv4Paths : List (List Layer) := [[], [.ipv4], [.ipv4, .icmp], [.ipv4, .udp]]

def ipv6Paths : List (List Layer) := [[], [.ipv6], [.ipv6, .udp]]

def carriedPaths (type : Nat) : List (List Layer) :=
  if type = 0x0806 then [[], [.arp]]
  else if type = 0x0800 then ipv4Paths
  else if type = 0x86DD then ipv6Paths
  else [[]]

/-- The paths of the decode trees that a packet may take, by its link type and ethertype. -/
def paths (ip : Bool) : (ethertype : Option Nat) → List (List Layer)
  | some type => if ip then [] else (carriedPaths type).map (.ethernet :: ·)
  | none => if ip then ipv4Paths ++ ipv6Paths else [[]]

theorem ipv4Layers_mem (p : Bytes) : ipv4Layers p ∈ ipv4Paths := by
  unfold ipv4Layers
  repeat' split
  all_goals decide

theorem ipv6Layers_mem (p : Bytes) : ipv6Layers p ∈ ipv6Paths := by
  unfold ipv6Layers
  repeat' split
  all_goals decide

theorem carriedLayers_mem (data : Bytes) : carriedLayers data ∈ carriedPaths (data.word 12) := by
  unfold carriedLayers carriedPaths
  split
  · split <;> decide
  · split
    · exact ipv4Layers_mem _
    · split
      · exact ipv6Layers_mem _
      · exact List.mem_singleton_self _

theorem ipLayers_mem (data : Bytes) : ipLayers data ∈ ipv4Paths ++ ipv6Paths := by
  unfold ipLayers
  split
  · exact List.mem_append_left _ (ipv4Layers_mem data)
  · split
    · exact List.mem_append_right _ (ipv6Layers_mem data)
    · decide

theorem layersOf_mem (linkType : Int) (data : Bytes) :
    layersOf linkType data ∈ paths (LinkType.isIp linkType) (ethertypeOf? linkType data) := by
  by_cases ethernet : linkType = 1
  · subst ethernet
    by_cases long : 14 ≤ data.length
    · simp only [layersOf, ethernetLayers, ethertypeOf?, long, and_self, if_true, paths]
      exact List.mem_map_of_mem (carriedLayers_mem data)
    · simp only [layersOf, ethernetLayers, ethertypeOf?, long, and_false, if_false, if_true, paths]
      decide
  · simp only [layersOf, ethertypeOf?, ethernet, false_and, if_false, paths,
      ← isIp_iff linkType ethernet]
    by_cases ip : LinkType.isIp linkType = true
    · simp only [if_pos ip]
      exact ipLayers_mem data
    · simp only [if_neg ip]
      exact List.mem_singleton_self _

/-- How the layers that one packet counts relate to each other and to its ethertype. -/
structure Within (layers : List Layer) (ip : Bool) (type : Option Nat) : Prop where
  once : ∀ l, layers.count l ≤ 1
  ethernet : layers.count .ethernet = type.toList.length
  arp : layers.count .arp ≤ type.toList.count 0x0806
  ipv4 : (if ip then 0 else layers.count .ipv4) ≤ type.toList.count 0x0800
  ipv6 : (if ip then 0 else layers.count .ipv6) ≤ type.toList.count 0x86DD
  network : layers.count .arp + layers.count .ipv4 + layers.count .ipv6 ≤
    layers.count .ethernet + ip.toNat
  icmp : layers.count .icmp ≤ layers.count .ipv4
  transport : layers.count .icmp + layers.count .udp ≤ layers.count .ipv4 + layers.count .ipv6

theorem count_ipPaths : ∀ layers ∈ ipv4Paths ++ ipv6Paths,
    layers.count .ethernet = 0 ∧ layers.count .arp = 0 ∧
      layers.count .ipv4 + layers.count .ipv6 ≤ 1 ∧ layers.count .icmp ≤ layers.count .ipv4 ∧
        layers.count .icmp + layers.count .udp ≤ layers.count .ipv4 + layers.count .ipv6 := by
  decide

theorem count_ipv4Paths : ∀ layers ∈ ipv4Paths, layers.count .ipv6 = 0 := by decide

theorem count_ipv6Paths : ∀ layers ∈ ipv6Paths, layers.count .ipv4 = 0 := by decide

theorem within_ip {layers : List Layer} (path : layers ∈ ipv4Paths ++ ipv6Paths) :
    Within layers true none := by
  obtain ⟨ethernet, arp, network, icmp, transport⟩ := count_ipPaths layers path
  exact {
    once := by
      intro l
      cases l <;> omega
    ethernet := ethernet
    arp := Nat.le_of_eq arp
    ipv4 := Nat.zero_le _
    ipv6 := Nat.zero_le _
    network := by
      simp only [Bool.toNat_true]
      omega
    icmp := icmp
    transport := transport }

theorem count_carriedPaths {layers : List Layer} {type : Nat}
    (path : layers ∈ carriedPaths type) :
    layers.count .ethernet = 0 ∧
      layers.count .arp + layers.count .ipv4 + layers.count .ipv6 ≤ 1 ∧
      layers.count .icmp ≤ layers.count .ipv4 ∧
      layers.count .icmp + layers.count .udp ≤ layers.count .ipv4 + layers.count .ipv6 ∧
      layers.count .arp ≤ [type].count 0x0806 ∧ layers.count .ipv4 ≤ [type].count 0x0800 ∧
      layers.count .ipv6 ≤ [type].count 0x86DD := by
  unfold carriedPaths at path
  split at path
  case isTrue arp =>
    subst arp
    revert layers
    decide
  split at path
  case isTrue ipv4 =>
    have all := count_ipPaths layers (List.mem_append_left _ path)
    have none := count_ipv4Paths layers path
    subst ipv4
    have one : [0x0800].count 0x0800 = 1 := List.count_singleton_self
    omega
  split at path
  case isTrue ipv6 =>
    have all := count_ipPaths layers (List.mem_append_right _ path)
    have none := count_ipv6Paths layers path
    subst ipv6
    have one : [0x86DD].count 0x86DD = 1 := List.count_singleton_self
    omega
  rw [List.mem_singleton.mp path]
  simp

theorem within_ethernet {layers : List Layer} {type : Nat} (path : layers ∈ carriedPaths type) :
    Within (.ethernet :: layers) false (some type) := by
  obtain ⟨ethernet, network, icmp, transport, arp, ipv4, ipv6⟩ := count_carriedPaths path
  have above (l : Layer) (other : l ≠ .ethernet) :
      (Layer.ethernet :: layers).count l = layers.count l := List.count_cons_of_ne other.symm
  have own : (Layer.ethernet :: layers).count .ethernet = 1 := by simp [ethernet]
  exact {
    once := by
      intro l
      cases l
      case ethernet => omega
      all_goals
        rw [above _ (by decide)]
        omega
    ethernet := own
    arp := arp
    ipv4 := ipv4
    ipv6 := ipv6
    network := by
      rw [own, above .arp (by decide), above .ipv4 (by decide), above .ipv6 (by decide)]
      omega
    icmp := icmp
    transport := transport }

theorem within_layersOf (linkType : Int) (data : Bytes) :
    Within (layersOf linkType data) (LinkType.isIp linkType) (ethertypeOf? linkType data) := by
  have path := layersOf_mem linkType data
  generalize LinkType.isIp linkType = ip at path ⊢
  generalize ethertypeOf? linkType data = type at path ⊢
  cases type with
  | none =>
    cases ip with
    | true => exact within_ip path
    | false =>
      rw [List.mem_singleton.mp path]
      constructor
      case once => exact fun _ => Nat.zero_le _
      all_goals decide
  | some type =>
    cases ip with
    | true => cases path
    | false =>
      obtain ⟨below, carried, same⟩ := List.mem_map.mp path
      exact same ▸ within_ethernet carried

theorem ways_le_one (linkType : Int) (data : Bytes) :
    (ethertypeOf? linkType data).toList.length + (LinkType.isIp linkType).toNat +
      (if linkType ∈ supported then 0 else 1) ≤ 1 := by
  by_cases ethernet : linkType = 1
  · subst ethernet
    by_cases long : 14 ≤ data.length <;> simp [ethertypeOf?, long] <;> decide
  · have rule := isIp_iff linkType ethernet
    by_cases ip : linkType ∈ supported
    · simp [ethertypeOf?, ethernet, ip, rule.mpr ip]
    · simp [ethertypeOf?, ethernet, ip, Bool.eq_false_iff.mpr (mt rule.mp ip)]

theorem word_of_ethertypeOf? {linkType : Int} {data : Bytes} {type : Nat}
    (known : ethertypeOf? linkType data = some type) : type < UInt16.size := by
  unfold ethertypeOf? at known
  split at known
  · have := data.octet_lt 12
    have := data.octet_lt 13
    have word : 256 * data.octet 12 + data.octet 13 = type := Option.some.inj known
    have size : UInt16.size = 65536 := rfl
    omega
  · cases known

end Dissect

end PacketLayers
