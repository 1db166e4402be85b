import PacketLayers.Proofs.Protocol.Acceptance

namespace PacketLayers

structure Bytes.Corruption (bs : Bytes) where
  place : Nat
  octet : UInt8
  inside : place < bs.length
  other : octet ≠ bs[place]

namespace Bytes.Corruption

variable {bs : Bytes}

def result (c : Corruption bs) : Bytes := bs.set c.place c.octet

theorem length_result (c : Corruption bs) : c.result.length = bs.length := List.length_set

theorem octet_result (c : Corruption bs) (i : Nat) :
    c.result.octet i = if i = c.place then c.octet.toNat else bs.octet i := by
  have inside := c.inside
  simp only [Bytes.octet, result, List.getD_eq_getElem?_getD, List.getElem?_set]
  by_cases here : c.place = i
  · simp [here, here ▸ inside]
  · simp [here, Ne.symm here]

theorem checksum_take_ne_zero (c : Corruption bs) {n : Nat} (summed : c.place < n)
    (valid : internetChecksum (bs.take n) = 0) : internetChecksum (c.result.take n) ≠ 0 := by
  have inside : c.place < (bs.take n).length := by
    rw [List.length_take]
    exact Nat.lt_min.mpr ⟨summed, c.inside⟩
  have replaced : c.result.take n = (bs.take n).set c.place c.octet := List.take_set
  rw [replaced]
  apply internetChecksum_set_ne_zero valid inside
  rw [List.getElem_take]
  exact c.other

end Bytes.Corruption

/-- Replacing an octet of an IPv4 header is noticed, unless it is the first octet that is replaced
by one of the same version and with another header length. -/
theorem Ipv4.not_holds_corrupted {p : Bytes} (packet : Holds p) (c : p.Corruption)
    (summed : c.place < headerEnd p)
    (noticed : c.place ≠ 0 ∨ c.octet.toNat % 16 = p.octet 0 % 16 ∨ c.octet.toNat / 16 ≠ 4) :
    ¬ Holds c.result := by
  obtain ⟨-, -, -, -, -, sum⟩ := packet
  rintro ⟨-, version, -, -, -, again⟩
  have first := c.octet_result 0
  by_cases length : headerEnd c.result = headerEnd p
  · rw [length] at again
    exact c.checksum_take_ne_zero summed sum again
  · rw [headerEnd, headerEnd] at length
    by_cases start : c.place = 0
    · rw [if_pos start.symm] at first
      rw [first] at length version
      omega
    · rw [if_neg (Ne.symm start)] at first
      rw [first] at length
      exact length rfl

theorem Icmp.not_holds_corrupted {q : Bytes} (message : Holds q) (c : q.Corruption) :
    ¬ Holds c.result := by
  rintro ⟨-, again⟩
  have sum : internetChecksum (q.take q.length) = 0 := by
    rw [List.take_length]
    exact message.2
  apply c.checksum_take_ne_zero c.inside sum
  rw [← c.length_result, List.take_length]
  exact again

/-- A packet is refused as invalid with any octet of its header replaced, its options included,
but for a first octet of the same version that states another header length. A message is refused
with any octet replaced at all. -/
theorem parse_of_corrupted :
    (∀ (p : Bytes) (f : Frame) (c : p.Corruption), Frame.parse Ipv4.format p = .ok f →
        c.place < Ipv4.headerLength f.header →
        c.place ≠ 0 ∨ c.octet.toNat % 16 = p.octet 0 % 16 ∨ c.octet.toNat / 16 ≠ 4 →
        Frame.parse Ipv4.format c.result = .error (.invalid "ipv4")) ∧
      ∀ (q : Bytes) (f : Frame) (c : q.Corruption), Frame.parse Icmp.format q = .ok f →
        Frame.parse Icmp.format c.result = .error (.invalid "icmp") := by
  constructor
  · intro p f c parsed summed noticed
    have packet := (Ipv4.accepts_iff p).mp (Frame.accepts_of_parse parsed)
    have length : Ipv4.headerLength f.header = Ipv4.headerEnd p := by
      rw [Frame.header_of_parse parsed]
      exact (Ipv4.header_reads packet.1).2.1
    rw [length] at summed
    have refused := Ipv4.not_holds_corrupted packet c summed noticed
    have long : 20 ≤ c.result.length := by
      rw [c.length_result]
      exact packet.1
    exact Frame.parse_eq_invalid long (mt (Ipv4.accepts_iff _).mp refused)
  · intro q f c parsed
    have message := (Icmp.accepts_iff q).mp (Frame.accepts_of_parse parsed)
    have refused := Icmp.not_holds_corrupted message c
    have long : 4 ≤ c.result.length := by
      rw [c.length_result]
      exact message.1
    exact Frame.parse_eq_invalid long (mt (Icmp.accepts_iff _).mp refused)

def optionPacket : Bytes := [
  0x46, 0, 0, 0x1C, 0, 1, 0, 0, 0x40, 0x11, 0x63, 0xCD, 10, 0, 0, 1, 10, 0, 0, 2, 1, 1, 1, 0,
  0x0F, 0xA0, 0, 0x35]

def oddMessage : Bytes := [8, 0, 0x96, 0xFF, 0x61]

theorem parse_of_corrupted_options :
    let option : optionPacket.Corruption := ⟨21, 0, by decide, by decide⟩
    let last : oddMessage.Corruption := ⟨4, 0x60, by decide, by decide⟩
    (∃ f, Frame.parse Ipv4.format optionPacket = .ok f ∧
        option.place < Ipv4.headerLength f.header) ∧
      Frame.parse Ipv4.format option.result = .error (.invalid "ipv4") ∧
      (∃ f, Frame.parse Icmp.format oddMessage = .ok f) ∧
      Frame.parse Icmp.format last.result = .error (.invalid "icmp") := by
  intro option last
  have packet : Ipv4.Holds optionPacket := by decide
  have message : Icmp.Holds oddMessage := by decide
  have parsed := Frame.parse_eq_ok ((Ipv4.accepts_iff _).mpr packet)
  have parsedMessage := Frame.parse_eq_ok ((Icmp.accepts_iff _).mpr message)
  have summed : option.place < Ipv4.headerLength (optionPacket.take 20) := by decide
  exact ⟨⟨_, parsed, summed⟩,
    parse_of_corrupted.1 optionPacket _ option parsed summed (.inl (by decide)),
    ⟨_, parsedMessage⟩, parse_of_corrupted.2 oddMessage _ last parsedMessage⟩

/-- Another header length may sum to zero as well. -/
example :
    let p : Bytes := [0x45, 0, 0, 24, 0, 0, 0, 0, 64, 17, 0x66, 0xD3, 10, 0, 0, 1, 10, 0, 0, 2,
      0xFE, 0xFF, 0, 0]
    Ipv4.Holds p ∧ Ipv4.Holds (p.set 0 0x46) := by decide

end PacketLayers
