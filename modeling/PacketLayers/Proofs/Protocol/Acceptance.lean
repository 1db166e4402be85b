import PacketLayers.Proofs.Checksum
import PacketLayers.Proofs.Frame.Octets
import PacketLayers.Protocol.Arp
import PacketLayers.Protocol.Icmp
import PacketLayers.Protocol.Udp

namespace PacketLayers

namespace Arp

/-- The octets of an ARP packet for Ethernet and IPv4 addresses. -/
def Holds (p : Bytes) : Prop := 28 ≤ p.length ∧ p.take 6 = [0x00, 0x01, 0x08, 0x00, 0x06, 0x04]

instance (p : Bytes) : Decidable (Holds p) := inferInstanceAs (Decidable (_ ∧ _))

end Arp

namespace Ipv4

def headerEnd (p : Bytes) : Nat := 4 * (p.octet 0 % 16)

/-- The octets of an IPv4 packet, padding of the link behind it included. -/
def Holds (p : Bytes) : Prop :=
  20 ≤ p.length ∧ p.octet 0 / 16 = 4 ∧ 20 ≤ headerEnd p ∧ headerEnd p ≤ p.word 2 ∧
    p.word 2 ≤ p.length ∧ internetChecksum (p.take (headerEnd p)) = 0

instance (p : Bytes) : Decidable (Holds p) := inferInstanceAs (Decidable (_ ∧ _))

def Whole (p : Bytes) : Prop := p.word 6 &&& 0x3FFF = 0

instance (p : Bytes) : Decidable (Whole p) := inferInstanceAs (Decidable (_ = _))

def content (p : Bytes) : Bytes := (p.take (p.word 2)).drop (headerEnd p)

end Ipv4

namespace Ipv6

/-- The octets of an IPv6 packet, padding of the link behind it included. -/
def Holds (p : Bytes) : Prop := 40 ≤ p.length ∧ p.octet 0 / 16 = 6 ∧ 40 + p.word 4 ≤ p.length

instance (p : Bytes) : Decidable (Holds p) := inferInstanceAs (Decidable (_ ∧ _))

def content (p : Bytes) : Bytes := (p.take (40 + p.word 4)).drop 40

end Ipv6

namespace Icmp

/-- The octets of an ICMP message, which sum to zero as a whole. -/
def Holds (q : Bytes) : Prop := 4 ≤ q.length ∧ internetChecksum q = 0

instance (q : Bytes) : Decidable (Holds q) := inferInstanceAs (Decidable (_ ∧ _))

end Icmp

namespace Udp

/-- The octets of a UDP datagram, which may end before they do. -/
def Holds (q : Bytes) : Prop := 8 ≤ q.length ∧ 8 ≤ q.word 4 ∧ q.word 4 ≤ q.length

instance (q : Bytes) : Decidable (Holds q) := inferInstanceAs (Decidable (_ ∧ _))

end Udp

namespace Ethernet

theorem accepts_iff (bs : Bytes) : Frame.Accepts format bs ↔ 14 ≤ bs.length := by
  simp [Frame.Accepts, format]

theorem payload_eq {bs : Bytes} (fits : format.headerLength ≤ bs.length) :
    (Frame.split format bs fits).payload = bs.drop 14 := by
  have piece : (Frame.split format bs fits).payload = (bs.take bs.length).drop 14 :=
    Frame.payload_split fits rfl (Nat.le_refl 14) fits (Nat.le_refl _)
  rw [piece, List.take_length]

theorem announces_iff {bs : Bytes} (fits : format.headerLength ≤ bs.length) (child : Format)
    (type : Nat) :
    (carries child type).announces (Frame.split format bs fits) = true ↔ bs.word 12 = type := by
  have long : 14 ≤ bs.length := fits
  have read : ethertype.value (Frame.split format bs fits).header = bs.word 12 := by
    change ethertype.value (bs.take 14) = bs.word 12
    rw [ethertype, Field.value_take (by decide), Field.value_two (by omega)]
  simp only [carries, read, beq_iff_eq]

end Ethernet

namespace Arp

theorem accepts_iff (p : Bytes) : Frame.Accepts format p ↔ Holds p := by
  refine and_congr_right fun (fits : 28 ≤ p.length) => ?_
  have two (i : Nat) (inside : i + 2 ≤ 28) : Field.value ⟨i, 2⟩ (p.take 28) = p.word i := by
    rw [Field.value_take inside, Field.value_two (by omega)]
  have one (i : Nat) (inside : i + 1 ≤ 28) : Field.value ⟨i, 1⟩ (p.take 28) = p.octet i := by
    rw [Field.value_take inside, Field.value_one (by omega)]
  simp only [format, hardwareType, protocolType, hardwareAddressLength, protocolAddressLength,
    two 0 (by omega), two 2 (by omega), one 4 (by omega), one 5 (by omega)]
  match p, fits with
  | a :: b :: c :: d :: e :: f :: rest, _ =>
    have octets : Bytes.word (a :: b :: c :: d :: e :: f :: rest) 0 = 256 * a.toNat + b.toNat ∧
        Bytes.word (a :: b :: c :: d :: e :: f :: rest) 2 = 256 * c.toNat + d.toNat ∧
        Bytes.octet (a :: b :: c :: d :: e :: f :: rest) 4 = e.toNat ∧
        Bytes.octet (a :: b :: c :: d :: e :: f :: rest) 5 = f.toNat := ⟨rfl, rfl, rfl, rfl⟩
    have low := b.toNat_lt
    have low' := d.toNat_lt
    simp only [octets, Bool.and_eq_true, beq_iff_eq, List.take_succ_cons, List.take_zero,
      List.cons.injEq, ← UInt8.toNat_inj, UInt8.reduceToNat, and_true]
    omega

end Arp

namespace Ipv4

theorem header_reads {p : Bytes} (fits : 20 ≤ p.length) :
    version (p.take 20) = p.octet 0 / 16 ∧ headerLength (p.take 20) = headerEnd p ∧
      totalLength.value (p.take 20) = p.word 2 ∧ fragment.value (p.take 20) = p.word 6 ∧
      protocol.value (p.take 20) = p.octet 9 := by
  simp only [version, headerLength, headerWords, headerEnd, versionAndLength, totalLength,
    fragment, protocol]
  refine ⟨?_, ?_, ?_, ?_, ?_⟩
  · rw [Field.value_take (by decide), Field.value_one (by omega)]
  · rw [Field.value_take (by decide), Field.value_one (by omega)]
  · rw [Field.value_take (by decide), Field.value_two (by omega)]
  · rw [Field.value_take (by decide), Field.value_two (by omega)]
  · rw [Field.value_take (by decide), Field.value_one (by omega)]

theorem checksumOver_eq {p : Bytes} (fits : 20 ≤ p.length) (low : 20 ≤ headerEnd p)
    (high : headerEnd p ≤ p.length) :
    checksumOver (p.take 20) (p.drop 20) = internetChecksum (p.take (headerEnd p)) := by
  have room : headerEnd p - 20 ≤ (p.drop 20).length := by
    rw [List.length_drop]
    omega
  have joined : p.take 20 ++ (p.drop 20).take (headerEnd p - 20) = p.take (headerEnd p) := by
    rw [← List.take_add]
    congr 1
    omega
  simp only [checksumOver, options, (header_reads fits).2.1, if_pos room]
  rw [finish_add_add, joined, checksum_eq]

theorem accepts_iff (p : Bytes) : Frame.Accepts format p ↔ Holds p := by
  refine and_congr_right fun (fits : 20 ≤ p.length) => ?_
  obtain ⟨version, header, total, -, -⟩ := header_reads fits
  have size : 20 + (p.drop 20).length = p.length := by
    rw [List.length_drop]
    omega
  have words : 5 ≤ headerWords (p.take 20) ↔ 20 ≤ headerEnd p := by
    rw [← header, headerLength]
    omega
  simp only [format, size, version, header, total, Bool.and_eq_true, beq_iff_eq,
    decide_eq_true_eq, words]
  constructor
  · rintro ⟨⟨⟨⟨⟨four, low⟩, high⟩, behind⟩, inside⟩, sum⟩
    exact ⟨four, low, behind, inside, checksumOver_eq fits low high ▸ sum⟩
  · rintro ⟨four, low, behind, inside, sum⟩
    have high := Nat.le_trans behind inside
    exact ⟨⟨⟨⟨⟨four, low⟩, high⟩, behind⟩, inside⟩, (checksumOver_eq fits low high).trans sum⟩

theorem payload_eq {p : Bytes} (packet : Holds p) (fits : format.headerLength ≤ p.length) :
    (Frame.split format p fits).payload = content p := by
  obtain ⟨-, -, low, behind, inside, -⟩ := packet
  obtain ⟨-, header, total, -, -⟩ := header_reads fits
  have claim : format.bounds (p.take 20) p.length = ⟨headerEnd p, p.word 2⟩ := by
    simp only [format, header, total]
  exact Frame.payload_split fits claim low behind inside

theorem isFragment_iff (word : Nat) :
    (word / 0x2000 % 2 == 1 || word % 0x2000 != 0) = false ↔ word &&& 0x3FFF = 0 := by
  rw [show 0x3FFF = 2 ^ 14 - 1 from rfl, Nat.and_two_pow_sub_one_eq_mod]
  simp only [Bool.or_eq_false_iff, beq_eq_false_iff_ne, bne_eq_false_iff_eq]
  omega

theorem announces_iff {p : Bytes} (fits : format.headerLength ≤ p.length) (child : Format)
    (number : Nat) :
    (carries child number).announces (Frame.split format p fits) = true ↔
      p.octet 9 = number ∧ Whole p := by
  obtain ⟨-, -, -, fragment, protocol⟩ := header_reads fits
  have header : (Frame.split format p fits).header = p.take 20 := rfl
  have whole : isFragment (p.take 20) = false ↔ Whole p := by
    rw [Whole, ← isFragment_iff, ← fragment]
    rfl
  simp only [carries, header, protocol, Bool.and_eq_true, beq_iff_eq, Bool.not_eq_true', whole]

end Ipv4

namespace Ipv6

theorem header_reads {p : Bytes} (fits : 40 ≤ p.length) :
    version (p.take 40) = p.octet 0 / 16 ∧ payloadLength.value (p.take 40) = p.word 4 ∧
      nextHeader.value (p.take 40) = p.octet 6 := by
  refine ⟨?_, ?_, ?_⟩
  · have three := Bytes.octet_lt p 3
    have two := Bytes.octet_lt p 2
    have one := Bytes.octet_lt p 1
    rw [version, firstWord, Field.value_take (by decide)]
    simp only [Field.value, Field.octets]
    rw [Bytes.ofBig_slice_succ (by omega), Bytes.ofBig_slice_succ (by omega),
      Bytes.ofBig_slice_succ (by omega), Bytes.ofBig_slice_succ (by omega)]
    simp only [Bytes.slice, List.take_zero, Bytes.ofBig, List.reverse_nil, Bytes.ofLittle,
      Nat.reduceAdd, Bytes.span]
    omega
  · rw [payloadLength, Field.value_take (by decide), Field.value_two (by omega)]
  · rw [nextHeader, Field.value_take (by decide), Field.value_one (by omega)]

theorem accepts_iff (p : Bytes) : Frame.Accepts format p ↔ Holds p := by
  refine and_congr_right fun (fits : 40 ≤ p.length) => ?_
  obtain ⟨version, payload, -⟩ := header_reads fits
  simp only [format, version, payload, List.length_drop, Bool.and_eq_true, beq_iff_eq,
    decide_eq_true_eq]
  refine and_congr_right fun _ => ?_
  omega

theorem payload_eq {p : Bytes} (packet : Holds p) (fits : format.headerLength ≤ p.length) :
    (Frame.split format p fits).payload = content p := by
  obtain ⟨-, -, inside⟩ := packet
  obtain ⟨-, payload, -⟩ := header_reads fits
  have claim : format.bounds (p.take 40) p.length = ⟨40, 40 + p.word 4⟩ := by
    simp only [format, payload]
  exact Frame.payload_split fits claim (Nat.le_refl 40) (Nat.le_add_right _ _) inside

theorem announces_iff {p : Bytes} (fits : format.headerLength ≤ p.length) (child : Format)
    (number : Nat) :
    (carries child number).announces (Frame.split format p fits) = true ↔ p.octet 6 = number := by
  have header : (Frame.split format p fits).header = p.take 40 := rfl
  simp only [carries, header, (header_reads fits).2.2, beq_iff_eq]

end Ipv6

theorem Icmp.accepts_iff (q : Bytes) : Frame.Accepts format q ↔ Holds q := by
  refine and_congr_right fun _ => ?_
  simp only [format, finish_add_add, List.take_append_drop, checksum_eq, beq_iff_eq]

theorem Udp.accepts_iff (q : Bytes) : Frame.Accepts format q ↔ Holds q := by
  refine and_congr_right fun (fits : 8 ≤ q.length) => ?_
  have read : length.value (q.take 8) = q.word 4 := by
    rw [length, Field.value_take (by decide), Field.value_two (by omega)]
  simp only [format, read, List.length_drop, Bool.and_eq_true, decide_eq_true_eq]
  refine and_congr_right fun _ => ?_
  omega

end PacketLayers
